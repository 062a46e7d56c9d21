import Irip.Numeric.Funcs

/-!
# `Numeric.Eval` — the interpreter, and the evaluation of an expression text

`visit` takes one node on the values of its operands; `interpret` a whole tree.
-/

namespace Irip.Numeric

open Evaluation

variable {F : Type}

/-! ## Interpretation -/

namespace Interpreter

variable (I : Interpreter F)

/-- The visit of a node, once its operands are computed. -/
def visit (e : Expr F) (vs : List (EvalValue F)) : Except Exn (Visited F) :=
  match e, vs with
  | .constant value, _ => I.visitConstant value
  | .name id, _ => I.visitName id
  | .unaryOp op _, [v] => I.visitUnaryop op v
  | .binOp _ op right, [l, r] => I.visitBinop op l r right.intLiteral
  | .compare _ op _ [], [l, r] => I.visitCompare op l r
  | .compare _ _ _ (_ :: _), _ => chained
  | .call func args _, vs => I.visitCall func vs args
  | .callOther, _ => .error (.python .attributeError)
  | .other type, _ => reject s!"unsupported node type: {type}"
  | _, _ => .error (.python .typeError)

mutual

/-- The value of a tree with the warnings on the way to it. -/
def interpret (e : Expr F) : Except Exn (Visited F) :=
  match e with
  | .constant value => I.visitConstant value
  | .name id => I.visitName id
  | .unaryOp op operand => do
    let (v, w) ← interpret operand
    let (r, w') ← I.visitUnaryop op v
    return (r, w ++ w')
  | .binOp left op right => do
    let (l, w) ← interpret left
    let (r, w') ← interpret right
    let (v, w'') ← I.visitBinop op l r right.intLiteral
    return (v, w ++ w' ++ w'')
  | .compare _ _ _ (_ :: _) => chained
  | .compare left op right [] => do
    let (l, w) ← interpret left
    let (r, w') ← interpret right
    let (v, w'') ← I.visitCompare op l r
    return (v, w ++ w' ++ w'')
  | .call func args _ => do
    let (vs, w) ← interpretArgs args
    let (v, w') ← I.visitCall func vs args
    return (v, w ++ w')
  | .callOther => .error (.python .attributeError)
  | .other type => reject s!"unsupported node type: {type}"

/-- The values of the arguments of a call. -/
def interpretArgs (args : List (Expr F)) : Except Exn (List (EvalValue F) × List Warning) :=
  match args with
  | [] => .ok ([], [])
  | arg :: args => do
    let (v, w) ← interpret arg
    let (vs, w') ← interpretArgs args
    return (v :: vs, w ++ w')

end

theorem interpretArgs_eq (args : List (Expr F)) :
    I.interpretArgs args = args.mapM I.interpret >>= fun rs => pure (rs.map Prod.fst, rs.flatMap Prod.snd) := by
  induction args with
  | nil =>
    rw [interpretArgs, List.mapM_nil]
    rfl
  | cons arg args ih =>
    rw [interpretArgs, List.mapM_cons, ih]
    cases I.interpret arg with
    | error _ => rfl
    | ok r => cases args.mapM I.interpret <;> rfl

theorem interpret_eq (e : Expr F) :
    I.interpret e = e.operands.mapM I.interpret >>= fun rs =>
      I.visit e (rs.map Prod.fst) >>= fun r => pure (r.1, rs.flatMap Prod.snd ++ r.2) := by
  have hleaf : ∀ x : Except Exn (Visited F),
      x = x >>= fun r => pure (r.1, ([] : List (Visited F)).flatMap Prod.snd ++ r.2) := by
    intro x
    cases x <;> rfl
  cases e with
  | constant value | name id | callOther | other type =>
    rw [interpret]
    exact hleaf _
  | unaryOp op operand =>
    rw [interpret, Expr.operands, List.mapM_cons, List.mapM_nil]
    cases I.interpret operand with
    | error _ => rfl
    | ok v =>
      show (I.visitUnaryop op v.1 >>= _) = (I.visitUnaryop op v.1 >>= _)
      simp
  | binOp left op right =>
    rw [interpret, Expr.operands, List.mapM_cons, List.mapM_cons, List.mapM_nil]
    cases I.interpret left with
    | error _ => rfl
    | ok l =>
      cases I.interpret right with
      | error _ => rfl
      | ok r =>
        show (I.visitBinop op l.1 r.1 right.intLiteral >>= _) =
          (I.visitBinop op l.1 r.1 right.intLiteral >>= _)
        simp
  | compare left op right more =>
    cases more with
    | cons _ _ =>
      rw [interpret]
      exact hleaf _
    | nil =>
      rw [interpret, Expr.operands, List.mapM_cons, List.mapM_cons, List.mapM_nil]
      cases I.interpret left with
      | error _ => rfl
      | ok l =>
        cases I.interpret right with
        | error _ => rfl
        | ok r =>
          show (I.visitCompare op l.1 r.1 >>= _) = (I.visitCompare op l.1 r.1 >>= _)
          simp
  | call func args keywords =>
    rw [interpret, interpretArgs_eq]
    show _ = args.mapM I.interpret >>= _
    cases args.mapM I.interpret with
    | error _ => rfl
    | ok rs => rfl

/-- The interpreter as a bottom-up evaluator. -/
def evaluator : Evaluator (Expr F) (EvalValue F) Exn Warning where
  operands := Expr.operands
  smaller := ⟨sizeOf, Expr.sizeOf_lt_of_mem_operands⟩
  visit := I.visit
  eval := I.interpret
  eval_eq := I.interpret_eq

/-- Interpreting `e` comes to the node `s` with the values `vs` of its operands. -/
abbrev Reached (e s : Expr F) (vs : List (EvalValue F)) : Prop := I.evaluator.Reached e s vs

variable {I}

theorem reached_name {id : String} {s : Expr F} {vs : List (EvalValue F)} (h : I.Reached (.name id) s vs) :
    s = .name id := by
  cases h with
  | here _ => rfl
  | operand hsplit _ _ =>
    have hnil : ([] : List (Expr F)) = _ := hsplit
    exact absurd hnil (by simp)

theorem reached_binOp {left right s : Expr F} {op : BinOp} {vs : List (EvalValue F)}
    (h : I.Reached (.binOp left op right) s vs) :
    s = .binOp left op right ∨ I.Reached left s vs ∨ I.Reached right s vs := by
  cases h with
  | here _ => exact .inl rfl
  | @operand _ as o bs _ _ _ hsplit _ hreach =>
    have hsplit' : [left, right] = as ++ o :: bs := hsplit
    have ho : o ∈ [left, right] := hsplit' ▸ List.mem_append_right as List.mem_cons_self
    rcases List.mem_pair.mp ho with rfl | rfl
    · exact .inr (.inl hreach)
    · exact .inr (.inr hreach)

end Interpreter

/-! ## Accepted trees -/

/-- What validation establishes of a node. -/
def Expr.Valid : Expr F → Prop
  | .constant (.int n) => n ≤ 10 ^ 18
  | .constant (.float _) => True
  | .constant _ => False
  | .name _ => True
  | .unaryOp op _ => op.unsupported = none
  | .binOp _ op _ => op.unsupported = none
  | .compare _ op _ _ => op.unsupported = none
  | .call func args _ => ∃ f, Func.ofName func = some f ∧ f.expectedArgs.1 ≤ args.length ∧
      args.length ≤ f.expectedArgs.2
  | .callOther => False
  | .other _ => False

section Accepted

variable {isIdentifier : String → Bool} {limits : NumericLimits}

/-- The validator goes through `e` as a part of some tree. -/
def Accepted (isIdentifier : String → Bool) (limits : NumericLimits) (e : Expr F) : Prop :=
  ∃ depth count count', countAndCheck isIdentifier limits depth e count = .ok count'

theorem accepted_of_validate {e : Expr F} (h : validate isIdentifier limits e = .ok ()) :
    Accepted isIdentifier limits e := by
  obtain ⟨count, _, h⟩ := bind_ok_iff.mp h
  obtain ⟨count', h, _⟩ := bind_ok_iff.mp h
  exact ⟨1, count, count', h⟩

theorem tick_ok {depth count count' : Nat} {unsupported : Option String}
    (h : tick limits depth unsupported count = .ok count') : unsupported = none := by
  unfold tick at h
  split at h
  · cases h
  · split at h
    · cases h
    · cases unsupported with
      | none => rfl
      | some type => cases h

theorem accepted_of_checkArgs {depth count count' : Nat} {args : List (Expr F)}
    (h : checkArgs isIdentifier limits depth args count = .ok count') :
    ∀ arg ∈ args, Accepted isIdentifier limits arg := by
  induction args generalizing count with
  | nil => exact List.forall_mem_nil _
  | cons arg args ih =>
    rw [checkArgs] at h
    obtain ⟨c, harg, h⟩ := bind_ok_iff.mp h
    intro a ha
    rcases List.mem_cons.mp ha with rfl | ha
    · exact ⟨depth, count, c, harg⟩
    · exact ih h a ha

theorem checkCall_ok {name : String} {actual : Nat} {keywords : Bool}
    (h : checkCall name actual keywords = .ok ()) :
    ∃ f, Func.ofName name = some f ∧ f.expectedArgs.1 ≤ actual ∧ actual ≤ f.expectedArgs.2 := by
  unfold checkCall at h
  split at h
  · cases h
  · next f hf =>
      split at h
      · cases h
      · split at h
        · cases h
        · next hcount =>
            rw [Bool.or_eq_true, decide_eq_true_eq, decide_eq_true_eq] at hcount
            exact ⟨f, hf, by omega, by omega⟩

theorem Accepted.valid {e : Expr F} (h : Accepted isIdentifier limits e) : e.Valid := by
  obtain ⟨depth, count, count', h⟩ := h
  cases e with
  | constant value =>
    rw [countAndCheck] at h
    obtain ⟨_, _, h⟩ := bind_ok_iff.mp h
    obtain ⟨_, hlit, _⟩ := bind_ok_iff.mp h
    cases value with
    | int n =>
      have hbound : (if n > 10 ^ 18 then reject "integer literal too large" else .ok ()) = .ok _ := hlit
      split at hbound
      · cases hbound
      · next hn => exact Nat.le_of_not_lt hn
    | float _ => trivial
    | bool _ => cases hlit
    | other _ _ => cases hlit
  | name _ => trivial
  | unaryOp op operand =>
    rw [countAndCheck] at h
    obtain ⟨_, _, h⟩ := bind_ok_iff.mp h
    obtain ⟨_, hop, _⟩ := bind_ok_iff.mp h
    exact tick_ok hop
  | binOp left op right | compare left op right more =>
    rw [countAndCheck] at h
    obtain ⟨_, _, h⟩ := bind_ok_iff.mp h
    obtain ⟨_, _, h⟩ := bind_ok_iff.mp h
    obtain ⟨_, hop, _⟩ := bind_ok_iff.mp h
    exact tick_ok hop
  | call func args keywords =>
    rw [countAndCheck] at h
    obtain ⟨_, _, h⟩ := bind_ok_iff.mp h
    obtain ⟨_, hcall, _⟩ := bind_ok_iff.mp h
    exact checkCall_ok hcall
  | callOther =>
    rw [countAndCheck] at h
    obtain ⟨_, _, h⟩ := bind_ok_iff.mp h
    cases h
  | other type =>
    rw [countAndCheck] at h
    exact absurd (tick_ok h) (Option.some_ne_none type)

theorem Accepted.operands {e : Expr F} (h : Accepted isIdentifier limits e) :
    ∀ o ∈ e.operands, Accepted isIdentifier limits o := by
  obtain ⟨depth, count, count', h⟩ := h
  intro o ho
  cases e with
  | constant _ | name _ | callOther | other _ => exact absurd ho List.not_mem_nil
  | unaryOp op operand =>
    rw [countAndCheck] at h
    obtain ⟨_, _, h⟩ := bind_ok_iff.mp h
    obtain ⟨c, _, h⟩ := bind_ok_iff.mp h
    rw [List.mem_singleton.mp ho]
    exact ⟨_, c, _, h⟩
  | binOp left op right =>
    rw [countAndCheck] at h
    obtain ⟨c, _, h⟩ := bind_ok_iff.mp h
    obtain ⟨c', hleft, h⟩ := bind_ok_iff.mp h
    obtain ⟨c'', _, hright⟩ := bind_ok_iff.mp h
    rcases List.mem_pair.mp ho with rfl | rfl
    · exact ⟨_, c, c', hleft⟩
    · exact ⟨_, c'', _, hright⟩
  | compare left op right more =>
    cases more with
    | cons _ _ => exact absurd ho List.not_mem_nil
    | nil =>
      rw [countAndCheck] at h
      obtain ⟨c, _, h⟩ := bind_ok_iff.mp h
      obtain ⟨c', hleft, h⟩ := bind_ok_iff.mp h
      obtain ⟨_, _, h⟩ := bind_ok_iff.mp h
      obtain ⟨d, _, h⟩ := bind_ok_iff.mp h
      obtain ⟨d', hright, _⟩ := bind_ok_iff.mp h
      rcases List.mem_pair.mp ho with rfl | rfl
      · exact ⟨_, c, c', hleft⟩
      · exact ⟨_, d, d', hright⟩
  | call func args keywords =>
    rw [countAndCheck] at h
    obtain ⟨_, _, h⟩ := bind_ok_iff.mp h
    obtain ⟨_, _, h⟩ := bind_ok_iff.mp h
    obtain ⟨_, _, h⟩ := bind_ok_iff.mp h
    obtain ⟨_, _, h⟩ := bind_ok_iff.mp h
    exact accepted_of_checkArgs h o ho

theorem Accepted.reached {I : Interpreter F} {e s : Expr F} {vs : List (EvalValue F)}
    (h : Accepted isIdentifier limits e) (hr : I.Reached e s vs) :
    Accepted isIdentifier limits s ∧ vs.length = s.operands.length := by
  induction hr with
  | here hrs =>
    refine ⟨h, ?_⟩
    rw [List.length_map]
    exact (mapM_ok_iff.mp hrs).length_eq.symm
  | @operand t as o bs _ _ _ hsplit _ _ ih =>
    have hsplit' : t.operands = as ++ o :: bs := hsplit
    exact ih (h.operands o (hsplit' ▸ List.mem_append_right as List.mem_cons_self))

end Accepted

/-! ## Evaluation -/

/-- What the engine takes from Python: its parser, `ast.parse(·, mode="eval")`, which answers with the message of a
`SyntaxError` or with the body of the tree, and `str.isidentifier`. -/
structure Parser (F : Type) where
  parse : String → Except String (Expr F)
  isIdentifier : String → Bool

/-- The result that is handed out: no negative zero. -/
def toNumericValue (A : Arith F) (val : EvalValue F) (warnings : List Warning) : NumericValue F :=
  { payload := match val.payload with
      | .nullScalar => .nullScalar
      | .scalar v => .scalar (A.normalizeZero v)
      | .vector cells => .vector (cells.map (fun c => { c with value := A.normalizeZero c.value }))
    unit := val.unit.toOutput
    warnings := warnings }

/-- What is checked of the variables before anything is interpreted: how many there are, and, unless nulls propagate,
that there are no nulls. -/
def Interpreter.precheck (I : Interpreter F) : Except Exn Unit := do
  raiseIf (I.vars.length > I.limits.maxVariables)
    { code := "numeric_size_limit"
      message := s!"too many variables ({I.vars.length} > {I.limits.maxVariables})" }
  match I.vars.find? (fun v => I.options.nullPolicy = .fail && v.2.series.anyNull) with
  | some (name, _) => .error (.numeric (Interpreter.nullInput name))
  | none => .ok ()

/-- `evaluate` from a validated tree on. -/
def Interpreter.evaluateTree (I : Interpreter F) (tree : Expr F) : Except Exn (NumericValue F) := do
  I.precheck
  let (val, warnings) ← I.interpret tree
  return toNumericValue I.arith val warnings

/-- `SafeExpressionEngine.evaluate`: parse, validate, interpret. -/
def evaluate (P : Parser F) (A : Arith F) (limits : NumericLimits) (expression : String)
    (vars : List (String × ResolvedNumericInput F)) (options : ExpressionOptions) :
    Except Exn (NumericValue F) := do
  raiseIf (expression.length > limits.maxExpressionLength)
    { code := "numeric_size_limit"
      message := s!"expression exceeds max length ({limits.maxExpressionLength})" }
  raiseIf (expression.length == 0) (rejection "expression is empty")
  let tree ← match P.parse expression with
    | .ok tree => .ok tree
    | .error msg => reject s!"expression syntax error: {msg}"
  validate P.isIdentifier limits tree
  let I : Interpreter F := { arith := A, vars := vars, options := options, limits := limits }
  I.evaluateTree tree

/-- Evaluating the tree `e` comes to the node `s` with the values `vs` of its operands. -/
def Interpreter.Visits (I : Interpreter F) (e s : Expr F) (vs : List (EvalValue F)) : Prop :=
  I.precheck = .ok () ∧ I.Reached e s vs

end Irip.Numeric
