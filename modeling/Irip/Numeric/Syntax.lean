import Irip.Base.Eval
import Irip.Numeric.Contracts

/-!
# `Numeric.Syntax` — the syntax trees of expressions, and their validation

`validate` accepts the trees all of whose nodes are `Valid`.
-/

namespace Irip.Numeric

/-! ## Functions -/

/-- The whitelisted functions. -/
inductive Func where
  | abs | sqrt | exp | log | log10 | sin | cos | tan | asin | acos | atan | atan2 | floor | ceil | round
  | minimum | maximum | clip | where_
  | count | sum | mean | min | max | median | var | std | quantile
  deriving DecidableEq

namespace Func

/-- The elementwise functions. -/
def isElementwise : Func → Bool
  | .abs | .sqrt | .exp | .log | .log10 | .sin | .cos | .tan | .asin | .acos | .atan | .atan2
  | .floor | .ceil | .round => true
  | _ => false

/-- The selecting and clipping functions. -/
def isSelect : Func → Bool
  | .minimum | .maximum | .clip | .where_ => true
  | _ => false

/-- The functions by their names. -/
def table : List (String × Func) :=
  [("abs", .abs), ("sqrt", .sqrt), ("exp", .exp), ("log", .log), ("log10", .log10), ("sin", .sin),
   ("cos", .cos), ("tan", .tan), ("asin", .asin), ("acos", .acos), ("atan", .atan), ("atan2", .atan2),
   ("floor", .floor), ("ceil", .ceil), ("round", .round), ("minimum", .minimum), ("maximum", .maximum),
   ("clip", .clip), ("where", .where_), ("count", .count), ("sum", .sum), ("mean", .mean), ("min", .min),
   ("max", .max), ("median", .median), ("var", .var), ("std", .std), ("quantile", .quantile)]

/-- The whitelisted function of a name. -/
def ofName (name : String) : Option Func := table.lookup name

/-- The least and the largest number of arguments. -/
def expectedArgs : Func → Nat × Nat
  | .atan2 | .round | .minimum | .maximum | .quantile => (2, 2)
  | .clip | .where_ => (3, 3)
  | .var | .std => (1, 2)
  | _ => (1, 1)

end Func

/-! ## Trees -/

inductive UnaryOp where
  | uAdd
  | uSub
  | other (type : String)
  deriving DecidableEq

inductive BinOp where
  | add | sub | mult | div | pow | mod
  | other (type : String)
  deriving DecidableEq

inductive CmpOp where
  | lt | ltE | gt | gtE | eq | notEq
  | other (type : String)
  deriving DecidableEq

/-- The value of a constant node. A literal that is no number is known by its type and by what `float` makes of
it. -/
inductive Literal (F : Type) where
  | int (n : Nat)
  | float (x : F)
  | bool (b : Bool)
  | other (type : String) (float : Except PyExn F)

/-- A node of an expression. A call whose function is no bare name, and a node of a type the engine does not
know, are kept without their parts: validation stops at them. -/
inductive Expr (F : Type) where
  | constant (value : Literal F)
  | name (id : String)
  | unaryOp (op : UnaryOp) (operand : Expr F)
  | binOp (left : Expr F) (op : BinOp) (right : Expr F)
  | compare (left : Expr F) (op : CmpOp) (right : Expr F) (more : List (CmpOp × Expr F))
  | call (func : String) (args : List (Expr F)) (keywords : Bool)
  | callOther
  | other (type : String)

/-- The constants by name. -/
def isConstantName (name : String) : Bool := name == "pi" || name == "e"

namespace Expr

variable {F : Type}

/-- The operands that are computed before the node is visited. A chained comparison is turned down before
anything is computed. -/
def operands : Expr F → List (Expr F)
  | .unaryOp _ operand => [operand]
  | .binOp left _ right => [left, right]
  | .compare left _ right [] => [left, right]
  | .call _ args _ => args
  | _ => []

/-- The integer literal a node is. -/
def intLiteral : Expr F → Option Nat
  | .constant (.int n) => some n
  | _ => none

theorem sizeOf_lt_of_mem_operands (e : Expr F) (o : Expr F) (h : o ∈ e.operands) : sizeOf o < sizeOf e := by
  cases e with
  | constant _ | name _ | callOther | other _ => exact absurd h List.not_mem_nil
  | unaryOp op operand =>
    rw [List.mem_singleton.mp h, unaryOp.sizeOf_spec]
    omega
  | binOp left op right =>
    rw [binOp.sizeOf_spec]
    rcases List.mem_pair.mp h with rfl | rfl <;> omega
  | compare left op right more =>
    cases more with
    | nil =>
      rw [compare.sizeOf_spec]
      rcases List.mem_pair.mp h with rfl | rfl <;> omega
    | cons _ _ => exact absurd h List.not_mem_nil
  | call func args keywords =>
    have hlt := List.sizeOf_lt_of_mem (show o ∈ args from h)
    rw [call.sizeOf_spec]
    omega

end Expr

/-! ## Validation -/

section Validation

variable {F : Type} (isIdentifier : String → Bool) (limits : NumericLimits)

/-- One more node at `depth`, of an allowed type or not. -/
def tick (depth : Nat) (unsupported : Option String) (count : Nat) : Except Exn Nat :=
  if count + 1 > limits.maxAstNodes then
    reject s!"expression exceeds max AST nodes ({limits.maxAstNodes})"
  else if depth > limits.maxAstDepth then
    reject s!"expression exceeds max AST depth ({limits.maxAstDepth})"
  else match unsupported with
    | some type => reject s!"unsupported syntax: {type}"
    | none => .ok (count + 1)

/-- The type of an operator that is not allowed. -/
def UnaryOp.unsupported : UnaryOp → Option String
  | .other type => some type
  | _ => none

def BinOp.unsupported : BinOp → Option String
  | .other type => some type
  | _ => none

def CmpOp.unsupported : CmpOp → Option String
  | .other type => some type
  | _ => none

/-- A constant: an integer of at most `10**18`, or a float. -/
def checkLiteral : Literal F → Except Exn Unit
  | .bool _ => reject "boolean literals are not allowed"
  | .other type _ => reject s!"unsupported literal type: {type}"
  | .int n => if n > 10 ^ 18 then reject "integer literal too large" else .ok ()
  | .float _ => .ok ()

/-- A name: that of a function, of a constant, or an identifier. -/
def checkName (name : String) : Except Exn Unit :=
  if (Func.ofName name).isNone && !isConstantName name && !isIdentifier name then
    reject s!"invalid identifier: {name}"
  else .ok ()

/-- A call: a whitelisted function, no keywords, and as many arguments as it takes. -/
def checkCall (name : String) (actual : Nat) (keywords : Bool) : Except Exn Unit :=
  match Func.ofName name with
  | none => reject s!"unknown function: {name}"
  | some f =>
    if keywords then reject "keyword arguments are not allowed"
    else if actual < f.expectedArgs.1 || actual > f.expectedArgs.2 then
      reject s!"{name} expects {f.expectedArgs.1}-{f.expectedArgs.2} arguments, got {actual}"
    else .ok ()

mutual

/-- `_count_and_check`: the nodes below `e`, in the order `ast.iter_child_nodes` has them. The answer is the
number of nodes so far. A name counts twice: its context is a node too. -/
def countAndCheck (depth : Nat) (e : Expr F) (count : Nat) : Except Exn Nat :=
  match e with
  | .constant value => do
    let count ← tick limits depth none count
    checkLiteral value
    return count
  | .name id => do
    let count ← tick limits depth none count
    checkName isIdentifier id
    tick limits depth none count
  | .unaryOp op operand => do
    let count ← tick limits depth none count
    let count ← tick limits (depth + 1) op.unsupported count
    countAndCheck (depth + 1) operand count
  | .binOp left op right => do
    let count ← tick limits depth none count
    let count ← countAndCheck (depth + 1) left count
    let count ← tick limits (depth + 1) op.unsupported count
    countAndCheck (depth + 1) right count
  | .compare left op right more => do
    let count ← tick limits depth none count
    let count ← countAndCheck (depth + 1) left count
    let count ← tick limits (depth + 1) op.unsupported count
    let count ← checkOps (depth + 1) more count
    let count ← countAndCheck (depth + 1) right count
    checkComparators (depth + 1) more count
  | .call func args keywords => do
    let count ← tick limits depth none count
    checkCall func args.length keywords
    -- the function is a name node with a context
    let count ← tick limits (depth + 1) none count
    let count ← tick limits (depth + 1) none count
    checkArgs (depth + 1) args count
  | .callOther => do
    let _ ← tick limits depth none count
    reject "only bare function names are allowed, no attribute access"
  | .other type => tick limits depth (some type) count

/-- The arguments of a call. -/
def checkArgs (depth : Nat) (args : List (Expr F)) (count : Nat) : Except Exn Nat :=
  match args with
  | [] => .ok count
  | arg :: args => do
    let count ← countAndCheck depth arg count
    checkArgs depth args count

/-- The operators of a chained comparison after the first. -/
def checkOps (depth : Nat) (more : List (CmpOp × Expr F)) (count : Nat) : Except Exn Nat :=
  match more with
  | [] => .ok count
  | (op, _) :: more => do
    let count ← tick limits depth op.unsupported count
    checkOps depth more count

/-- The operands of a chained comparison after the second. -/
def checkComparators (depth : Nat) (more : List (CmpOp × Expr F)) (count : Nat) : Except Exn Nat :=
  match more with
  | [] => .ok count
  | (_, e) :: more => do
    let count ← countAndCheck depth e count
    checkComparators depth more count

end

/-- The validation of a whole tree, whose root is an `Expression` node around `e`. -/
def validate (e : Expr F) : Except Exn Unit := do
  let count ← tick limits 0 none 0
  let _ ← countAndCheck isIdentifier limits 1 e count
  return ()

end Validation

end Irip.Numeric
