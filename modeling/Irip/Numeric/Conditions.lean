import Irip.Numeric.NullPropagation

/-!
# `Numeric.Conditions` — where the results of comparisons go

A comparison result is an ordinary value with a mark, and each consumer looks at the mark for itself. It is meant for
the first argument of `where`, and for nothing else.
-/

namespace Irip.Numeric

open Evaluation

variable {F : Type}

/-! ## Conditions -/

namespace Expr

/-- A comparison, or one under plus signs. -/
def isCond : Expr F → Bool
  | .compare _ _ _ _ => true
  | .unaryOp .uAdd operand => operand.isCond
  | _ => false

/-- A call of `where`. -/
def isWhere : Expr F → Bool
  | .call func _ _ => Func.ofName func = some .where_
  | _ => false

end Expr

/-- The functions with a parameter as their second argument: digits, `ddof`, the level of a quantile. -/
def Func.takesParameter : Func → Bool
  | .round | .var | .std | .quantile => true
  | _ => false

/-- The places among the operands of a node where a condition is not turned down. -/
inductive Takes : Expr F → Nat → Prop where
  | plus {operand} : Takes (.unaryOp .uAdd operand) 0
  | condition {func args keywords} : Func.ofName func = some .where_ → Takes (.call func args keywords) 0
  | parameter {func f args keywords} : Func.ofName func = some f → f.takesParameter = true →
      Takes (.call func args keywords) 1

/-- A node with a condition at a place for numbers that does not turn it down: `+c`, and `round(x, c)`,
`var(x, c)`, `std(x, c)` and `quantile(x, c)`. -/
def Expr.leaks : Expr F → Bool
  | .unaryOp .uAdd operand => operand.isCond
  | .call func (_ :: c :: _) _ => c.isCond && (Func.ofName func).any Func.takesParameter
  | _ => false

theorem Func.second_argument {func : Func} {n : Nat} (he : func.isElementwise = false)
    (hs : func.isSelect = false) (h : n + 2 ≤ func.expectedArgs.2) : func.takesParameter = true ∧ n = 0 := by
  cases func
  case var | std | quantile =>
    have htwo : n + 2 ≤ 2 := h
    exact ⟨rfl, by omega⟩
  case count | sum | mean | min | max | median =>
    have hone : n + 2 ≤ 1 := h
    omega
  case minimum | maximum | clip | where_ => cases hs
  all_goals cases he

/-! ## Visits -/

/-- No value among `vs` is a condition, but for those at the places `P`. -/
def CondsAt (P : Nat → Prop) (vs : List (EvalValue F)) : Prop :=
  ∀ n v, vs[n]? = some v → v.isCondition = true → P n

theorem condsAt_nil {P : Nat → Prop} : CondsAt P ([] : List (EvalValue F)) := by
  intro n v hv
  cases hv

variable {vs : List (EvalValue F)}

theorem condsAt_cons {P : Nat → Prop} {v : EvalValue F}
    (hv : v.isCondition = true → P 0) (hvs : CondsAt (fun n => P (n + 1)) vs) : CondsAt P (v :: vs) := by
  intro n u hu hcond
  cases n with
  | zero =>
    rw [List.getElem?_cons_zero] at hu
    cases hu
    exact hv hcond
  | succ n =>
    rw [List.getElem?_cons_succ] at hu
    exact hvs n u hu hcond

theorem condsAt_plain {P : Nat → Prop} {v : EvalValue F} (hv : v.isCondition = false)
    (hvs : CondsAt (fun n => P (n + 1)) vs) : CondsAt P (v :: vs) :=
  condsAt_cons (fun h => absurd (hv ▸ h) Bool.false_ne_true) hvs

namespace Interpreter

variable {I : Interpreter F}

variable {unit : UnitTag} {f : Elementwise F} {x a b : EvalValue F} {v : Visited F} {func : Func}
  {args : List (EvalValue F)}

theorem applyBinop_isCondition {op : Binop F} {l r v : EvalValue F} {shape : Shape}
    (h : I.applyBinop op l r shape unit = .ok v) : v.isCondition = false := by
  unfold applyBinop at h
  split at h
  · obtain ⟨_, _, h⟩ := bind_ok_iff.mp h
    obtain ⟨_, _, h⟩ := bind_ok_iff.mp h
    obtain ⟨_, _, h⟩ := bind_ok_iff.mp h
    cases h
    rfl
  · split at h
    · obtain ⟨_, _, h⟩ := bind_ok_iff.mp h
      obtain ⟨_, _, h⟩ := bind_ok_iff.mp h
      obtain ⟨_, _, h⟩ := bind_ok_iff.mp h
      obtain ⟨_, _, h⟩ := bind_ok_iff.mp h
      cases h
      rfl
    · cases h
      rfl

theorem elementwiseUnary_isCondition {v : EvalValue F}
    (h : I.elementwiseUnary f x unit = .ok v) : v.isCondition = false := by
  unfold elementwiseUnary at h
  split at h
  · cases h
    rfl
  · obtain ⟨_, _, h⟩ := bind_ok_iff.mp h
    obtain ⟨_, _, h⟩ := bind_ok_iff.mp h
    cases h
    rfl
  · obtain ⟨_, _, h⟩ := bind_ok_iff.mp h
    obtain ⟨_, _, h⟩ := bind_ok_iff.mp h
    cases h
    rfl

theorem keepUnit_isCondition (h : I.keepUnit f x = .ok v) : v.1.isCondition = false := by
  obtain ⟨u, hu, h⟩ := bind_ok_iff.mp h
  cases h
  exact elementwiseUnary_isCondition hu

theorem dimensionless_isCondition (h : I.dimensionless f x = .ok v) : v.1.isCondition = false := by
  obtain ⟨w, _, h⟩ := bind_ok_iff.mp h
  obtain ⟨u, hu, h⟩ := bind_ok_iff.mp h
  cases h
  exact elementwiseUnary_isCondition hu

theorem angle_isCondition (h : I.angle f x = .ok v) : v.1.isCondition = false := by
  obtain ⟨⟨unit, w⟩, _, h⟩ := bind_ok_iff.mp h
  obtain ⟨u, hu, h⟩ := bind_ok_iff.mp h
  cases h
  exact elementwiseUnary_isCondition hu

theorem callSqrt_isCondition (h : I.callSqrt x = .ok v) : v.1.isCondition = false := by
  obtain ⟨u, hu, h⟩ := bind_ok_iff.mp h
  cases h
  exact elementwiseUnary_isCondition hu

theorem callAtan2_isCondition {y : EvalValue F} (h : I.callAtan2 y x = .ok v) :
    y.isCondition = false ∧ x.isCondition = false ∧ v.1.isCondition = false := by
  obtain ⟨_, hy, h⟩ := bind_ok_iff.mp h
  obtain ⟨_, hx, h⟩ := bind_ok_iff.mp h
  obtain ⟨_, _, h⟩ := bind_ok_iff.mp h
  obtain ⟨_, _, h⟩ := bind_ok_iff.mp h
  obtain ⟨u, hu, h⟩ := bind_ok_iff.mp h
  cases h
  exact ⟨rejectCondition_ok.mp hy, rejectCondition_ok.mp hx, applyBinop_isCondition hu⟩

theorem callRound_isCondition {digits : EvalValue F} (h : I.callRound x digits = .ok v) :
    v.1.isCondition = false := by
  obtain ⟨_, _, h⟩ := bind_ok_iff.mp h
  obtain ⟨_, _, h⟩ := bind_ok_iff.mp h
  obtain ⟨_, _, h⟩ := bind_ok_iff.mp h
  split at h
  · cases h
    rfl
  · obtain ⟨_, _, h⟩ := bind_ok_iff.mp h
    cases h
    rfl
  · cases h
    rfl

theorem callElementwise_isCondition
    (hlo : func.expectedArgs.1 ≤ args.length) (hhi : args.length ≤ func.expectedArgs.2)
    (h : I.callElementwise func args = .ok v) :
    v.1.isCondition = false ∧ CondsAt (fun n => func.takesParameter = true ∧ n = 1) args := by
  cases func
  case atan2 =>
    obtain ⟨y, x, rfl⟩ := two_arguments hhi hlo
    obtain ⟨hy, hx, hv⟩ := callAtan2_isCondition h
    exact ⟨hv, condsAt_plain hy (condsAt_plain hx condsAt_nil)⟩
  case round =>
    obtain ⟨x, digits, rfl⟩ := two_arguments hhi hlo
    obtain ⟨_, hx, h⟩ := bind_ok_iff.mp h
    refine ⟨callRound_isCondition h, condsAt_plain (rejectCondition_ok.mp hx) (condsAt_cons ?_ condsAt_nil)⟩
    exact fun _ => ⟨rfl, rfl⟩
  case abs | floor | ceil =>
    obtain ⟨x, rfl⟩ := one_argument hhi hlo
    obtain ⟨_, hx, h⟩ := bind_ok_iff.mp h
    exact ⟨keepUnit_isCondition h, condsAt_plain (rejectCondition_ok.mp hx) condsAt_nil⟩
  case sqrt =>
    obtain ⟨x, rfl⟩ := one_argument hhi hlo
    obtain ⟨_, hx, h⟩ := bind_ok_iff.mp h
    exact ⟨callSqrt_isCondition h, condsAt_plain (rejectCondition_ok.mp hx) condsAt_nil⟩
  case exp | log | log10 | sin | cos | tan =>
    obtain ⟨x, rfl⟩ := one_argument hhi hlo
    obtain ⟨_, hx, h⟩ := bind_ok_iff.mp h
    exact ⟨dimensionless_isCondition h, condsAt_plain (rejectCondition_ok.mp hx) condsAt_nil⟩
  case asin | acos | atan =>
    obtain ⟨x, rfl⟩ := one_argument hhi hlo
    obtain ⟨_, hx, h⟩ := bind_ok_iff.mp h
    exact ⟨angle_isCondition h, condsAt_plain (rejectCondition_ok.mp hx) condsAt_nil⟩
  all_goals cases h

theorem callMinMax_isCondition {name : String} {scalar vector : F → F → F}
    (h : I.callMinMax a b name scalar vector = .ok v) :
    a.isCondition = false ∧ b.isCondition = false ∧ v.1.isCondition = false := by
  obtain ⟨_, ha, h⟩ := bind_ok_iff.mp h
  obtain ⟨_, hb, h⟩ := bind_ok_iff.mp h
  refine ⟨rejectCondition_ok.mp ha, rejectCondition_ok.mp hb, ?_⟩
  obtain ⟨⟨unit, w⟩, _, h⟩ := bind_ok_iff.mp h
  obtain ⟨shape, _, h⟩ := bind_ok_iff.mp h
  split at h
  · obtain ⟨_, _, h⟩ := bind_ok_iff.mp h
    cases h
    rfl
  · split at h
    · cases h
      rfl
    · cases h
      rfl

theorem callClip_isCondition {low high : EvalValue F} (h : I.callClip x low high = .ok v) :
    x.isCondition = false ∧ low.isCondition = false ∧ high.isCondition = false ∧ v.1.isCondition = false := by
  obtain ⟨_, hx, h⟩ := bind_ok_iff.mp h
  obtain ⟨_, hlow, h⟩ := bind_ok_iff.mp h
  obtain ⟨_, hhigh, h⟩ := bind_ok_iff.mp h
  refine ⟨rejectCondition_ok.mp hx, rejectCondition_ok.mp hlow, rejectCondition_ok.mp hhigh, ?_⟩
  obtain ⟨_, _, h⟩ := bind_ok_iff.mp h
  obtain ⟨_, _, h⟩ := bind_ok_iff.mp h
  obtain ⟨_, _, h⟩ := bind_ok_iff.mp h
  obtain ⟨_, _, h⟩ := bind_ok_iff.mp h
  obtain ⟨⟨unit, w⟩, _, h⟩ := bind_ok_iff.mp h
  cases hp : x.payload with
  | nullScalar | scalar _ =>
    rw [hp] at h
    cases h
    rfl
  | vector _ =>
    rw [hp] at h
    obtain ⟨_, _, h⟩ := bind_ok_iff.mp h
    cases h
    rfl

theorem applyWhere_isCondition {cond v : EvalValue F}
    (h : I.applyWhere cond a b unit = .ok v) : v.isCondition = false := by
  unfold applyWhere at h
  split at h
  · cases h
    unfold whereScalars
    split <;> rfl
  · obtain ⟨_, _, h⟩ := bind_ok_iff.mp h
    obtain ⟨_, _, h⟩ := bind_ok_iff.mp h
    obtain ⟨_, _, h⟩ := bind_ok_iff.mp h
    unfold whereResult at h
    split at h
    · cases h
    · obtain ⟨_, _, h⟩ := bind_ok_iff.mp h
      cases h
      rfl

theorem callWhere_isCondition {cond : EvalValue F} (h : I.callWhere cond a b = .ok v) :
    a.isCondition = false ∧ b.isCondition = false ∧ v.1.isCondition = false := by
  obtain ⟨_, _, h⟩ := bind_ok_iff.mp h
  obtain ⟨_, ha, h⟩ := bind_ok_iff.mp h
  obtain ⟨_, hb, h⟩ := bind_ok_iff.mp h
  obtain ⟨_, _, h⟩ := bind_ok_iff.mp h
  obtain ⟨u, hu, h⟩ := bind_ok_iff.mp h
  cases h
  exact ⟨rejectCondition_ok.mp ha, rejectCondition_ok.mp hb, applyWhere_isCondition hu⟩

/-- The selecting functions: only the first argument of `where` may be a condition. -/
theorem callSelect_isCondition
    (hlo : func.expectedArgs.1 ≤ args.length) (hhi : args.length ≤ func.expectedArgs.2)
    (h : I.callSelect func args = .ok v) :
    v.1.isCondition = false ∧ CondsAt (fun n => func = .where_ ∧ n = 0) args := by
  cases func
  case minimum | maximum =>
    obtain ⟨a, b, rfl⟩ := two_arguments hhi hlo
    obtain ⟨ha, hb, hv⟩ := callMinMax_isCondition h
    exact ⟨hv, condsAt_plain ha (condsAt_plain hb condsAt_nil)⟩
  case clip =>
    obtain ⟨x, low, high, rfl⟩ := List.length_eq_three.mp (show args.length = 3 from Nat.le_antisymm hhi hlo)
    obtain ⟨hx, hlow, hhigh, hv⟩ := callClip_isCondition h
    exact ⟨hv, condsAt_plain hx (condsAt_plain hlow (condsAt_plain hhigh condsAt_nil))⟩
  case where_ =>
    obtain ⟨c, a, b, rfl⟩ := List.length_eq_three.mp (show args.length = 3 from Nat.le_antisymm hhi hlo)
    obtain ⟨ha, hb, hv⟩ := callWhere_isCondition h
    exact ⟨hv, condsAt_cons (fun _ => ⟨rfl, rfl⟩) (condsAt_plain ha (condsAt_plain hb condsAt_nil))⟩
  all_goals cases h

theorem aggregateValues_isCondition {vals : List F}
    {nodes : List (Expr F)} (h : I.aggregateValues func vals unit args nodes = .ok v) : v.1.isCondition = false := by
  have hspread {longName name : String} {reduction : Reduction} {ddof : Nat} {unit : UnitTag}
      (h : I.aggregateSpread longName name reduction ddof vals unit = .ok v) : v.1.isCondition = false := by
    unfold aggregateSpread at h
    split at h
    · cases h
    · split at h
      · cases h
      · obtain ⟨_, _, h⟩ := bind_ok_iff.mp h
        cases h
        rfl
  have horder {name : String} {reduction : Reduction}
      (h : I.aggregateOrder name reduction vals unit = .ok v) : v.1.isCondition = false := by
    unfold aggregateOrder at h
    split at h
    · cases h
    · cases h
      rfl
  unfold aggregateValues at h
  split at h
  · unfold aggregateSum at h
    split at h
    · cases h
      rfl
    · obtain ⟨_, _, h⟩ := bind_ok_iff.mp h
      obtain ⟨_, _, h⟩ := bind_ok_iff.mp h
      cases h
      rfl
  · unfold aggregateMean at h
    split at h
    · cases h
    · obtain ⟨_, _, h⟩ := bind_ok_iff.mp h
      cases h
      rfl
  · exact horder h
  · exact horder h
  · exact horder h
  · obtain ⟨ddof, _, h⟩ := bind_ok_iff.mp h
    exact hspread h
  · obtain ⟨ddof, _, h⟩ := bind_ok_iff.mp h
    exact hspread h
  · obtain ⟨_, _, h⟩ := bind_ok_iff.mp h
    obtain ⟨_, _, h⟩ := bind_ok_iff.mp h
    obtain ⟨_, _, h⟩ := bind_ok_iff.mp h
    obtain ⟨_, _, h⟩ := bind_ok_iff.mp h
    cases h
    rfl
  · cases h

theorem callAggregate_isCondition {nodes : List (Expr F)}
    (he : func.isElementwise = false) (hs : func.isSelect = false)
    (hhi : args.length ≤ func.expectedArgs.2) (h : I.callAggregate func args nodes = .ok v) :
    v.1.isCondition = false ∧ CondsAt (fun n => func.takesParameter = true ∧ n = 1) args := by
  cases args with
  | nil => cases h
  | cons x args =>
    obtain ⟨_, hx, h⟩ := bind_ok_iff.mp h
    constructor
    · split at h
      · cases h
        rfl
      · split at h
        · cases h
          rfl
        · exact aggregateValues_isCondition h
    · refine condsAt_plain (rejectCondition_ok.mp hx) ?_
      cases args with
      | nil => exact condsAt_nil
      | cons y args =>
        obtain ⟨hparameter, hnil⟩ := Func.second_argument he hs hhi
        rw [List.length_eq_zero_iff.mp hnil]
        exact condsAt_cons (fun _ => ⟨hparameter, rfl⟩) condsAt_nil

end Interpreter

/-- Whether the value of a node is a condition, from its operands; and where a visit that succeeds has conditions. -/
theorem visit_isCondition {I : Interpreter F} {s : Expr F} {r : Visited F}
    (hvalid : s.Valid) (hvs : List.Forall₂ (fun o v => v.isCondition = Expr.isCond o) s.operands vs)
    (h : I.visit s vs = .ok r) : r.1.isCondition = s.isCond ∧ CondsAt (Takes s) vs := by
  have hlen := hvs.length_eq.symm
  cases s with
  | constant value =>
    rw [List.length_eq_zero_iff.mp (show vs.length = 0 from hlen)] at h ⊢
    refine ⟨?_, condsAt_nil⟩
    have hc : I.visitConstant value = .ok r := h
    cases value with
    | bool _ => cases hc
    | int _ | float _ =>
      obtain ⟨_, _, hc⟩ := bind_ok_iff.mp hc
      obtain ⟨_, _, hc⟩ := bind_ok_iff.mp hc
      cases hc
      rfl
    | other _ _ => exact absurd hvalid (fun hfalse => hfalse)
  | name id =>
    rw [List.length_eq_zero_iff.mp (show vs.length = 0 from hlen)] at h ⊢
    refine ⟨?_, condsAt_nil⟩
    have hn : I.visitName id = .ok r := h
    unfold Interpreter.visitName at hn
    split at hn
    · cases hn
      rfl
    · split at hn
      · cases hn
        rfl
      · split at hn
        · cases hn
        · split at hn
          · cases hn
          · split at hn
            · cases hn
              rfl
            · cases hn
              rfl
  | unaryOp op operand =>
    obtain ⟨v, rfl⟩ := List.length_eq_one_iff.mp (show vs.length = 1 from hlen)
    have hu : I.visitUnaryop op v = .ok r := h
    cases op with
    | uAdd =>
      cases hu
      exact ⟨(List.forall₂_cons.mp hvs).1, condsAt_cons (fun _ => .plus) condsAt_nil⟩
    | uSub =>
      obtain ⟨u, hneg, hu⟩ := bind_ok_iff.mp hu
      cases hu
      unfold Interpreter.negate at hneg
      split at hneg
      · cases hneg
      · next hv =>
          refine ⟨?_, condsAt_plain (Bool.eq_false_iff.mpr hv) condsAt_nil⟩
          split at hneg <;> cases hneg <;> rfl
    | other type => cases hu
  | binOp left op right =>
    obtain ⟨l, r', rfl⟩ := List.length_eq_two.mp (show vs.length = 2 from hlen)
    have hb : I.visitBinop op l r' right.intLiteral = .ok r := h
    obtain ⟨_, _, _, _, happly⟩ := Interpreter.visitBinop_ok hb
    obtain ⟨_, hl, hb⟩ := bind_ok_iff.mp hb
    obtain ⟨_, hr, hb⟩ := bind_ok_iff.mp hb
    exact ⟨Interpreter.applyBinop_isCondition happly, condsAt_plain (Interpreter.rejectCondition_ok.mp hl)
      (condsAt_plain (Interpreter.rejectCondition_ok.mp hr) condsAt_nil)⟩
  | compare left op right more =>
    cases more with
    | cons _ _ => cases h
    | nil =>
      obtain ⟨l, r', rfl⟩ := List.length_eq_two.mp (show vs.length = 2 from hlen)
      have hc : I.visitCompare op l r' = .ok r := h
      obtain ⟨_, hl, hc⟩ := bind_ok_iff.mp hc
      obtain ⟨_, hr, hc⟩ := bind_ok_iff.mp hc
      obtain ⟨test, _, hc⟩ := bind_ok_iff.mp hc
      obtain ⟨shape, _, hc⟩ := bind_ok_iff.mp hc
      cases hc
      refine ⟨?_, condsAt_plain (Interpreter.rejectCondition_ok.mp hl)
        (condsAt_plain (Interpreter.rejectCondition_ok.mp hr) condsAt_nil)⟩
      show (I.applyCompare test l r' shape).isCondition = true
      unfold Interpreter.applyCompare
      split
      · rfl
      · split <;> rfl
  | call func args keywords =>
    obtain ⟨f, hf, hlo, hhi⟩ := hvalid
    have hargs : vs.length = args.length := hlen
    rw [← hargs] at hlo hhi
    have hc : I.visitCall func vs args = .ok r := h
    show r.1.isCondition = false ∧ _
    cases he : f.isElementwise with
    | true =>
      rw [I.visitCall_elementwise hf he] at hc
      obtain ⟨hv, hconds⟩ := Interpreter.callElementwise_isCondition hlo hhi hc
      exact ⟨hv, fun n v hn hcond => (hconds n v hn hcond).2 ▸ .parameter hf (hconds n v hn hcond).1⟩
    | false =>
      cases hs : f.isSelect with
      | true =>
        rw [I.visitCall_select hf he hs] at hc
        obtain ⟨hv, hconds⟩ := Interpreter.callSelect_isCondition hlo hhi hc
        refine ⟨hv, fun n v hn hcond => ?_⟩
        obtain ⟨hwhere, hzero⟩ := hconds n v hn hcond
        rw [hwhere] at hf
        exact hzero ▸ .condition hf
      | false =>
        rw [I.visitCall_aggregate hf he hs] at hc
        obtain ⟨hv, hconds⟩ := Interpreter.callAggregate_isCondition he hs hhi hc
        exact ⟨hv, fun n v hn hcond => (hconds n v hn hcond).2 ▸ .parameter hf (hconds n v hn hcond).1⟩
  | callOther | other type => exact absurd hvalid (fun hfalse => hfalse)

/-! ## Confinement -/

section Confinement

variable {isIdentifier : String → Bool} {I : Interpreter F} {e : Expr F}

/-- In the evaluation of `e` a comparison result is used only as the first argument of `where`, and is not the final
result. -/
structure Confined (I : Interpreter F) (e : Expr F) : Prop where
  used : ∀ s vs r, I.Visits e s vs → I.visit s vs = .ok r → CondsAt (fun n => s.isWhere = true ∧ n = 0) vs
  result : ∀ val, I.precheck = .ok () → I.interpret e = .ok val → val.1.isCondition = false

/-- The evaluation of `e` completes a node that leaks, or `e` is a comparison itself. -/
def ConditionEscapes (I : Interpreter F) (e : Expr F) : Prop :=
  (∃ s vs r, I.Visits e s vs ∧ I.visit s vs = .ok r ∧ s.leaks = true) ∨
    (e.isCond = true ∧ ∃ val, I.evaluateTree e = .ok val)

/-- A value is a condition exactly if its tree is a comparison, or one under plus signs. -/
theorem interpret_isCondition (he : Accepted isIdentifier I.limits e) {val : Visited F}
    (h : I.interpret e = .ok val) : val.1.isCondition = e.isCond := by
  refine Evaluator.eval_invariant (E := I.evaluator)
    (P := fun t v => Accepted isIdentifier I.limits t → v.isCondition = t.isCond) ?_ h he
  intro t vs r hvs hvisit ht
  have hflags : List.Forall₂ (fun o v => v.isCondition = Expr.isCond o) t.operands vs :=
    forall₂_imp_mem hvs (fun o ho v hov => hov (ht.operands o ho))
  exact (visit_isCondition ht.valid hflags hvisit).1

/-- At every node an evaluation comes to, the conditions are the values of the comparisons among the operands. -/
theorem reached_conditions (he : Accepted isIdentifier I.limits e) {s : Expr F} {vs : List (EvalValue F)}
    (h : I.Reached e s vs) : List.Forall₂ (fun o v => v.isCondition = Expr.isCond o) s.operands vs := by
  obtain ⟨hs, _⟩ := he.reached h
  refine forall₂_imp_mem h.operands_reached (fun o ho v hov => ?_)
  obtain ⟨us, w, hreach, hv⟩ := hov
  obtain ⟨rs, hrs, rfl⟩ := hreach.operands_ok
  exact interpret_isCondition (hs.operands o ho) (Evaluator.eval_ok_iff (E := I.evaluator).mpr ⟨rs, (v, w), hrs, hv, rfl⟩)

theorem leaks_iff {s : Expr F} {vs : List (EvalValue F)}
    (hvs : List.Forall₂ (fun o v => v.isCondition = Expr.isCond o) s.operands vs)
    (hconds : CondsAt (Takes s) vs) :
    s.leaks = true ↔ ¬ CondsAt (fun n => s.isWhere = true ∧ n = 0) vs := by
  constructor
  · intro hleaks hwhere
    unfold Expr.leaks at hleaks
    split at hleaks
    · next operand =>
        obtain ⟨v, us, hv, _, rfl⟩ := List.forall₂_cons_left_iff.mp hvs
        exact Bool.false_ne_true (hwhere 0 v rfl (hv.trans hleaks)).1
    · next func first c rest keywords =>
        obtain ⟨v, us, _, hus, rfl⟩ := List.forall₂_cons_left_iff.mp hvs
        obtain ⟨u, us, hu, _, rfl⟩ := List.forall₂_cons_left_iff.mp hus
        have hone := (hwhere 1 u rfl (hu.trans (Bool.and_eq_true_iff.mp hleaks).1)).2
        omega
    · cases hleaks
  · intro hnot
    by_contra hleaks
    refine hnot (fun n v hn hcond => ?_)
    cases hconds n v hn hcond with
    | @plus operand =>
      obtain ⟨u, us, hu, _, rfl⟩ := List.forall₂_cons_left_iff.mp hvs
      cases hn
      exact absurd (hu.symm.trans hcond) hleaks
    | condition hfunc => exact ⟨decide_eq_true hfunc, rfl⟩
    | @parameter func f args keywords hfunc hparameter =>
      -- the second argument is there, and it is a comparison
      cases hvs with
      | nil => cases hn
      | @cons first _ rest us _ hus =>
        cases hus with
        | nil => cases hn
        | @cons c u _ _ hu _ =>
          cases hn
          refine absurd ?_ hleaks
          show (c.isCond && (Func.ofName func).any Func.takesParameter) = true
          rw [hfunc, ← hu, hcond]
          exact hparameter

/-- **Conditions stay conditions unless one escapes.** -/
theorem confined_iff (he : validate isIdentifier I.limits e = .ok ()) : Confined I e ↔ ¬ ConditionEscapes I e := by
  have hacc := accepted_of_validate he
  constructor
  · rintro ⟨hused, hresult⟩ (⟨s, vs, r, hvisits, hvisit, hleaks⟩ | ⟨hcond, val, hval⟩)
    · obtain ⟨hs, _⟩ := hacc.reached hvisits.2
      have hvs := reached_conditions hacc hvisits.2
      exact (leaks_iff hvs (visit_isCondition hs.valid hvs hvisit).2).mp hleaks (hused s vs r hvisits hvisit)
    · obtain ⟨_, hpre, hval⟩ := bind_ok_iff.mp hval
      obtain ⟨v, hv, _⟩ := bind_ok_iff.mp hval
      have hfalse := hresult v hpre hv
      rw [interpret_isCondition hacc hv, hcond] at hfalse
      cases hfalse
  · intro hescapes
    constructor
    · intro s vs r hvisits hvisit
      obtain ⟨hs, _⟩ := hacc.reached hvisits.2
      have hvs := reached_conditions hacc hvisits.2
      by_contra hnot
      exact hescapes (.inl ⟨s, vs, r, hvisits, hvisit,
        (leaks_iff hvs (visit_isCondition hs.valid hvs hvisit).2).mpr hnot⟩)
    · intro val hpre hval
      rw [interpret_isCondition hacc hval]
      by_contra hcond
      refine hescapes (.inr ⟨Bool.of_not_eq_false hcond, toNumericValue I.arith val.1 val.2, ?_⟩)
      exact bind_ok_iff.mpr ⟨(), hpre, bind_ok_iff.mpr ⟨val, hval, rfl⟩⟩

end Confinement

theorem Interpreter.reached_part {I : Interpreter F} {e s : Expr F}
    (h : I.Reached e s vs) : s = e ∨ ∃ o ∈ e.operands, I.Reached o s vs := by
  cases h with
  | here _ => exact .inl rfl
  | @operand _ as o bs _ _ _ hsplit _ hreach =>
    have hsplit' : e.operands = as ++ o :: bs := hsplit
    exact .inr ⟨o, hsplit' ▸ List.mem_append_right as List.mem_cons_self, hreach⟩

/-- A comparison as the condition of `where`. -/
theorem confined_iff_where :
    Confined (twoSeries [⟨1, false⟩] [⟨2, false⟩])
      (.call "where" [.compare (.name "v") .gt (.name "w") [], .name "v", .name "w"] false) := by
  have hvalid : validate (F := ℚ) (fun _ => true) (twoSeries [⟨1, false⟩] [⟨2, false⟩]).limits
      (.call "where" [.compare (.name "v") .gt (.name "w") [], .name "v", .name "w"] false) = .ok () := rfl
  refine (confined_iff hvalid).mpr ?_
  rintro (⟨s, vs, r, ⟨_, hreach⟩, _, hleaks⟩ | ⟨hcond, _⟩)
  · have hname : ∀ id vs, (twoSeries [⟨1, false⟩] [⟨2, false⟩]).Reached (.name id) s vs → s.leaks = false := by
      intro id vs h
      rw [Interpreter.reached_name h]
      rfl
    have hfalse : s.leaks = false := by
      rcases Interpreter.reached_part hreach with rfl | ⟨o, ho, hreach⟩
      · rfl
      · rcases List.mem_cons.mp ho with rfl | ho
        · rcases Interpreter.reached_part hreach with rfl | ⟨o, ho, hreach⟩
          · rfl
          · rcases List.mem_pair.mp ho with rfl | rfl
            · exact hname _ _ hreach
            · exact hname _ _ hreach
        · rcases List.mem_pair.mp ho with rfl | rfl
          · exact hname _ _ hreach
          · exact hname _ _ hreach
    rw [hfalse] at hleaks
    cases hleaks
  · cases hcond

/-- **A comparison as the digits of `round`.** `round(2, 2 > 1)` is accepted and evaluates: the comparison counts as
one digit. -/
theorem comparison_as_digits :
    ¬ ∀ (I : Interpreter ℚ) (e : Expr ℚ), validate (fun _ => true) I.limits e = .ok () → Confined I e := by
  intro hall
  have hconfined := hall (twoSeries [] [])
    (.call "round" [.constant (.int 2), .compare (.constant (.int 2)) .gt (.constant (.int 1)) []] false) rfl
  have hops : (Expr.operands (.call "round" [.constant (.int 2),
      .compare (.constant (.int 2)) .gt (.constant (.int 1)) []] false)).mapM (twoSeries [] []).interpret =
      .ok [(.scalarVal 2 .dimensionless, []), (.conditionVal (.scalar 1), [])] :=
    ok_of_toOption (by decide +kernel)
  have hused := hconfined.used _ _ (.scalarVal 2 .dimensionless, []) ⟨rfl, .here hops⟩
    (ok_of_toOption (by decide +kernel))
  have hone := (hused 1 (.conditionVal (.scalar 1)) rfl rfl).2
  omega

end Irip.Numeric
