import Irip.Base.Label
import Irip.Numeric.Eval
import Mathlib.Algebra.Module.Pi

/-!
# `Numeric.Dimension` — dimensions of expressions, and labels read as text

The label of a result is text: products and quotients are written one factor behind the other, without parentheses.
-/

namespace Irip.Numeric

open Evaluation

variable {F : Type}

/-! ## Dimensions -/

/-- A dimension: the exponent of every base dimension. -/
abbrev Dim := String → ℚ

/-- The base dimension of a label. -/
def unitDim (label : String) : Dim := fun l => if l = label then 1 else 0

/-- The dimension of a declared unit, for which its label stands. -/
def UnitTag.ownDim : UnitTag → Dim
  | .known label => unitDim label
  | _ => 0

/-- The functions that keep the dimension of their first argument. -/
def Func.keepsUnit : Func → Bool
  | .abs | .floor | .ceil | .round | .sum | .mean | .min | .max | .median | .std | .quantile => true
  | _ => false

/-- The functions of a number whose value is a number. -/
def Func.ofNumber : Func → Bool
  | .exp | .log | .log10 | .sin | .cos | .tan => true
  | _ => false

/-- The functions of a number whose value is an angle. -/
def Func.isInverseTrig : Func → Bool
  | .asin | .acos | .atan => true
  | _ => false

/-- The dimension of the result of an operator. -/
def binopDim (op : BinOp) (l r : Dim) (exponent : Option Nat) : Dim :=
  match op with
  | .add | .sub | .mod => l
  | .mult => l + r
  | .div => l - r
  | .pow => exponent.getD 0 • l
  | .other _ => 0

/-- The dimension of the value of a function. -/
def callDim (angle : AngleUnit) (func : Func) (args : List Dim) : Dim :=
  match func, args with
  | .sqrt, d :: _ => (1 / 2 : ℚ) • d
  | .var, d :: _ => 2 • d
  | .minimum, d :: _ => d
  | .maximum, d :: _ => d
  | .clip, d :: _ => d
  | .where_, _ :: d :: _ => d
  | .asin, _ => (angleTag angle).ownDim
  | .acos, _ => (angleTag angle).ownDim
  | .atan, _ => (angleTag angle).ownDim
  | .atan2, _ => (angleTag angle).ownDim
  | func, d :: _ => if func.keepsUnit then d else 0
  | _, [] => 0

namespace Interpreter

variable (I : Interpreter F)

/-- The dimension of a constant or a variable. -/
def nameDim (name : String) : Dim :=
  if isConstantName name then 0
  else match I.vars.lookup name with
    | some var => (UnitTag.fromUnitString var.unit).ownDim
    | none => 0

/-- The dimension of a node, from those of its operands. -/
def nodeDim (e : Expr F) (ds : List Dim) : Dim :=
  match e, ds with
  | .name id, _ => I.nameDim id
  | .unaryOp _ _, [d] => d
  | .binOp _ op right, [l, r] => binopDim op l r right.intLiteral
  | .call func _ _, ds => ((Func.ofName func).map (callDim I.options.angleUnit · ds)).getD 0
  | _, _ => 0

mutual

/-- The dimension of an expression. -/
def dim (e : Expr F) : Dim :=
  match e with
  | .unaryOp op operand => I.nodeDim (.unaryOp op operand) [dim operand]
  | .binOp left op right => I.nodeDim (.binOp left op right) [dim left, dim right]
  | .call func args keywords => I.nodeDim (.call func args keywords) (dims args)
  | e => I.nodeDim e []

/-- The dimensions of the arguments of a call. -/
def dims (args : List (Expr F)) : List Dim :=
  match args with
  | [] => []
  | arg :: args => dim arg :: dims args

end

theorem dims_eq (args : List (Expr F)) : I.dims args = args.map I.dim := by
  induction args with
  | nil => rw [dims, List.map_nil]
  | cons arg args ih => rw [dims, List.map_cons, ih]

theorem dim_eq (e : Expr F) : I.dim e = I.nodeDim e (e.operands.map I.dim) := by
  cases e with
  | constant _ | name _ | callOther | other _ => rw [dim] <;> first | rfl | simp
  | unaryOp op operand | binOp left op right => rw [dim]; rfl
  | compare left op right more =>
    rw [dim]
    · cases more <;> rfl
    all_goals simp
  | call func args keywords =>
    rw [dim, dims_eq]
    rfl

end Interpreter

/-! ## Labels -/

/-- What a label is read as. -/
def readLabel (label : String) : Option Dim := Label.read (fun cs => unitDim (String.ofList cs)) label.toList

/-- What the first factor of a label is read as. -/
def headLabel (label : String) : Option Dim := Label.head (fun cs => unitDim (String.ofList cs)) label.toList

/-- What stands before the last factor of a label is read as. -/
def leadLabel (label : String) : Option Dim := Label.lead (fun cs => unitDim (String.ofList cs)) label.toList

/-- A tag denotes a dimension. The unknown unit may be any. -/
def UnitTag.Denotes (t : UnitTag) (d : Dim) : Prop :=
  match t with
  | .known label => readLabel label = some d
  | .dimensionless => d = 0
  | .unknown => True

section Written

variable {l r : String} {a b : Dim}

theorem readLabel_mul (hl : readLabel l = some a) (hr : readLabel r = some b) :
    readLabel s!"{l}*{r}" = some (a + b) := by
  have htext : s!"{l}*{r}".toList = l.toList ++ '*' :: r.toList := by simp [toString]
  rw [readLabel, htext]
  exact Label.read_mul hl hr

theorem readLabel_div_iff (hl : readLabel l = some a) (hr : readLabel r = some b) :
    readLabel s!"{l}/{r}" = some (a - b) ↔ headLabel r = readLabel r := by
  have htext : s!"{l}/{r}".toList = l.toList ++ '/' :: r.toList := by simp [toString]
  rw [readLabel, htext]
  exact Label.read_div_iff hl hr

theorem readLabel_one_div_iff (hr : readLabel r = some b) :
    readLabel s!"1/{r}" = some (0 - b) ↔ headLabel r = readLabel r := by
  have htext : s!"1/{r}".toList = ['1'] ++ '/' :: r.toList := by simp [toString]
  rw [readLabel, htext]
  exact Label.read_div_iff Label.read_one hr

theorem readLabel_pow_iff {n : Nat} (hl : readLabel l = some a) :
    readLabel s!"{l}^{n + 2}" = some ((n + 2) • a) ↔ leadLabel l = some 0 := by
  have htext : s!"{l}^{n + 2}".toList = l.toList ++ '^' :: (n + 2).repr.toList := by simp [toString]
  rw [readLabel, htext]
  exact Label.read_power_iff hl (Label.numeral_repr (n + 2))

theorem readLabel_square_iff (hl : readLabel l = some a) :
    readLabel s!"{l}^2" = some (2 • a) ↔ leadLabel l = some 0 := by
  have htext : s!"{l}^2".toList = l.toList ++ '^' :: ['2'] := by simp [toString]
  rw [readLabel, htext]
  exact Label.read_power_iff (n := 0) hl (by decide)

theorem readLabel_sqrt (hl : readLabel l = some a) : readLabel s!"sqrt({l})" = some ((1 / 2 : ℚ) • a) := by
  have htext : s!"sqrt({l})".toList = ['s', 'q', 'r', 't'] ++ ('(' :: l.toList ++ [')']) := by simp [toString]
  rw [readLabel, htext]
  exact Label.read_root hl

theorem readLabel_own_iff : readLabel l = some (unitDim l) ↔ Label.Plain l.toList := by
  -- the dimensions in which everything that is no name has the exponent zero
  let S : Submodule ℚ Dim :=
    { carrier := fun d => ∀ v, ¬ Label.Plain v.toList → d v = 0
      add_mem' := fun {d d'} hd hd' v hv => by
        rw [Pi.add_apply, hd v hv, hd' v hv, add_zero]
      zero_mem' := fun _ _ => rfl
      smul_mem' := fun c d hd v hv => by
        rw [Pi.smul_apply, hd v hv, smul_zero] }
  have hS : ∀ cs, Label.Plain cs → unitDim (String.ofList cs) ∈ S := by
    intro cs hcs v hv
    refine if_neg (fun heq => hv ?_)
    rw [heq, String.toList_ofList]
    exact hcs
  have hno : ¬ Label.Plain l.toList → unitDim (String.ofList l.toList) ∉ S := by
    intro hplain hmem
    have hzero : unitDim (String.ofList l.toList) l = 0 := hmem l hplain
    rw [String.ofList_toList] at hzero
    exact one_ne_zero ((if_pos rfl).symm.trans hzero)
  have hiff := Label.read_name_iff hS hno
  rw [String.ofList_toList] at hiff
  exact hiff

end Written

end Irip.Numeric
