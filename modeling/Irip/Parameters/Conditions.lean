import Mathlib.Data.String.Basic
import Irip.Base.Binary64
import Irip.Base.Dict
import Irip.Common

/-!
# `Parameters.Conditions` — conditions as JSON documents, parsed and evaluated

A condition is a comparison of one field with an operand, or the conjunction or disjunction of a list of conditions.
-/

namespace Irip.Parameters.Conditions

/-! ## Operators -/

inductive ConditionOperator where
  | eq
  | ne
  | lt
  | lte
  | gt
  | gte
  | in_
  | and
  | or
  deriving DecidableEq

def ConditionOperator.value : ConditionOperator → String
  | .eq => "eq"
  | .ne => "ne"
  | .lt => "lt"
  | .lte => "lte"
  | .gt => "gt"
  | .gte => "gte"
  | .in_ => "in"
  | .and => "and"
  | .or => "or"

def allowedConditionFields : List String :=
  ["department_id", "object_id", "material_code", "temperature_c", "humidity_pct", "sample_moisture_pct"]

def leafOperators : List ConditionOperator := [.eq, .ne, .lt, .lte, .gt, .gte, .in_]

/-- `_BRANCH_OPERATORS` in the order in which this run of the interpreter iterates the set. -/
def branchOperators (andFirst : Bool) : List ConditionOperator := if andFirst then [.and, .or] else [.or, .and]

/-- The leaf operator a key names. -/
def leafOperator? (key : String) : Option ConditionOperator := leafOperators.find? (fun op => op.value = key)

/-! ## Nodes -/

structure ConditionLeaf where
  field : String
  op : ConditionOperator
  value : Json

inductive ConditionNode where
  | leaf (leaf : ConditionLeaf)
  | branch (op : ConditionOperator) (children : List ConditionNode)

/-! ## Parsing -/

def invalid (message : String) (fields : List (String × Json) := []) : AppError :=
  { code := "validation_failed", message := message, fields := fields }

/-- `isinstance(·, _SCALAR_TYPES)`. -/
def isScalar : Json → Bool
  | .str _ => true
  | .int _ => true
  | .float _ => true
  | .bool _ => true
  | _ => false

/-- `type(·).__name__`. -/
def typeName : Json → String
  | .null => "NoneType"
  | .bool _ => "bool"
  | .int _ => "int"
  | .float _ => "float"
  | .str _ => "str"
  | .arr _ => "list"
  | .obj _ => "dict"
  | .other _ => "object"

/-- `repr` of a list of texts. -/
def reprTexts (texts : List String) : String := (Json.arr (texts.map .str)).pyStr

/-- The first operator among the members, with its operand. -/
def firstOperator (fs : List (String × Json)) : Option (ConditionOperator × Json) :=
  fs.findSome? (fun m => if m.1 = "field" then none else (leafOperator? m.1).map (fun op => (op, m.2)))

/-- The operand has the type its operator asks for. -/
def checkOperand (op : ConditionOperator) (value : Json) : Except AppError Unit :=
  if op = .in_ then
    match value with
    | .arr _ => .ok ()
    | _ => .error (invalid "操作符 'in' 的值必须是一个列表" [("in", .str "must_be_list")])
  else if isScalar value then .ok ()
  else .error (invalid s!"操作符 '{op.value}' 的值必须是标量（str/int/float/bool），实际类型: {typeName value}"
    [(op.value, .str "must_be_scalar")])

/-- `parse` behind the test for a branch. -/
def parseLeaf (fs : List (String × Json)) : Except AppError ConditionNode :=
  match fs.lookup "field" with
  | none => .error (invalid "条件叶子节点必须包含 'field' 字段")
  | some (.str field) =>
    if field ∉ allowedConditionFields then
      .error (invalid
        s!"条件字段 '{field}' 不在白名单中，允许的字段: {reprTexts (allowedConditionFields.insertionSort (· ≤ ·))}"
        [("field", .str field)])
    else
      match firstOperator fs with
      | none =>
        let unknownKeys := (fs.map Prod.fst).filter (fun k => k ≠ "field")
        let supported := (leafOperators.map ConditionOperator.value).insertionSort (· ≤ ·)
        .error (invalid
          s!"条件叶子节点缺少有效操作符，未知键: {reprTexts unknownKeys}，支持的操作符: {reprTexts supported}"
          [("operator", .str "unknown")])
      | some (op, value) => (checkOperand op value).map (fun _ => .leaf { field := field, op := op, value := value })
  | some _ => .error (invalid "条件 'field' 必须是字符串" [("field", .str "must_be_string")])

def mustBeList (op : ConditionOperator) : AppError :=
  invalid s!"逻辑操作符 '{op.value}' 的值必须是一个列表" [(op.value, .str "must_be_list")]

mutual

def parse (andFirst : Bool) : Json → Except AppError ConditionNode
  | .obj fs =>
    match parseMember andFirst (if andFirst then .and else .or) fs with
    | some result => result
    | none =>
      match parseMember andFirst (if andFirst then .or else .and) fs with
      | some result => result
      | none => parseLeaf fs
  | _ => .error (invalid "条件必须是一个 JSON 对象")

/-- The branch under the key of `op`, if there is one. -/
def parseMember (andFirst : Bool) (op : ConditionOperator) :
    List (String × Json) → Option (Except AppError ConditionNode)
  | [] => none
  | (k, v) :: fs => if k = op.value then some (parseBranch andFirst op v) else parseMember andFirst op fs

/-- The branch that a value stands for. -/
def parseBranch (andFirst : Bool) (op : ConditionOperator) : Json → Except AppError ConditionNode
  | .arr items => (parseItems andFirst items).map (.branch op)
  | _ => .error (mustBeList op)

/-- `parse` of every item of a list, up to the first error. -/
def parseItems (andFirst : Bool) : List Json → Except AppError (List ConditionNode)
  | [] => .ok []
  | item :: items => (parse andFirst item).bind (fun n => (parseItems andFirst items).map (n :: ·))

end

/-! ## Values -/

/-- The exceptions that are told apart. -/
inductive Raised where
  | typeError
  | valueError
  | overflowError
  | other
  deriving DecidableEq

/-- What `float(·)` and `str(·)` make of a value. -/
structure Reading where
  number : Except Raised FloatNum
  text : Except Raised String

/-- The value of a float, which is known by its `repr`. -/
def floatValue (repr : String) : FloatNum := (parseFloat repr.toList).getD .nan

/-- `float(·)` of an integer. -/
def intToFloat (i : Int) : Except Raised FloatNum :=
  if (binary64.ofRat i).isFinite then .ok (binary64.ofRat i) else .error .overflowError

/-- `sys.get_int_max_str_digits()`. -/
def maxStrDigits : Nat := 4300

/-- What is made of a decoded value. -/
def reading : Json → Reading
  | .int i =>
    { number := intToFloat i
      text := if maxStrDigits < (toString i.natAbs).length then .error .valueError else .ok (toString i) }
  | .bool b => { number := intToFloat (if b then 1 else 0), text := .ok (Json.bool b).pyStr }
  | .float r => { number := .ok (floatValue r), text := .ok r }
  | .str s =>
    { number := match parseFloat (strip s).toList with
        | some x => .ok x
        | none => .error .valueError
      text := .ok s }
  | v => { number := .error .typeError, text := .ok v.pyStr }

/-- An operand of a comparison. -/
abbrev Operand := {v : Json // isScalar v = true}

/-- Any other object, by what it answers to `float(·)`, to `str(·)` and to a test for equality. -/
structure Foreign extends Reading where
  equals : Json → Bool

/-- A value of the context. -/
inductive Value where
  | scalar (v : Operand)
  | object (o : Foreign)

def Value.reading : Value → Reading
  | .scalar v => Conditions.reading v.val
  | .object o => o.toReading

/-! ## Comparison -/

/-- The exact value of a number. -/
def exactNumber : Json → Option FloatNum
  | .int i => some (.fin i)
  | .bool b => some (.fin (if b then 1 else 0))
  | .float r => some (floatValue r)
  | _ => none

/-- `==` of a scalar and a decoded value: numbers by their values, whatever their types. -/
def sameScalar (v w : Json) : Bool :=
  match exactNumber v, exactNumber w with
  | some x, some y => decide (x = y ∧ x ≠ .nan)
  | none, none =>
    match v, w with
    | .str s, .str t => s == t
    | _, _ => false
  | _, _ => false

/-- `ctx_value == value`. -/
def equals : Value → Json → Bool
  | .scalar v, w => sameScalar v.val w
  | .object o, w => o.equals w

/-- `_compare` as texts. -/
def compareTexts (a b : Reading) : Except Raised Int := do
  let s ← a.text
  let t ← b.text
  return if s < t then -1 else if t < s then 1 else 0

/-- `_compare`: by the numbers if both are numbers, else by the texts. Only a `TypeError` and a `ValueError` lead to the texts. -/
def compare (a b : Reading) : Except Raised Int :=
  let numbers : Except Raised Int := do
    let x ← a.number
    let y ← b.number
    return if x.lt y then -1 else if y.lt x then 1 else 0
  match numbers with
  | .ok n => .ok n
  | .error .typeError => compareTexts a b
  | .error .valueError => compareTexts a b
  | .error e => .error e

/-! ## Evaluation -/

def evalLeaf (context : Dict String Value) (leaf : ConditionLeaf) : Except Raised Bool :=
  match context.get? leaf.field with
  | none => .ok false
  | some ctx =>
    let compared := compare ctx.reading (reading leaf.value)
    match leaf.op with
    | .eq => .ok (equals ctx leaf.value)
    | .ne => .ok !(equals ctx leaf.value)
    | .lt => compared.map (fun n => decide (n < 0))
    | .lte => compared.map (fun n => decide (n ≤ 0))
    | .gt => compared.map (fun n => decide (0 < n))
    | .gte => compared.map (fun n => decide (0 ≤ n))
    | .in_ =>
      match leaf.value with
      | .arr items => .ok (items.any (equals ctx))
      | _ => .ok false
    | _ => .ok false

mutual

def evalNode (context : Dict String Value) : ConditionNode → Except Raised Bool
  | .leaf leaf => evalLeaf context leaf
  | .branch op children => if op = .and then evalAll context children else evalAny context children

/-- `all(·)` of the children, up to the first that fails. -/
def evalAll (context : Dict String Value) : List ConditionNode → Except Raised Bool
  | [] => .ok true
  | n :: ns => (evalNode context n).bind (fun b => if b then evalAll context ns else .ok false)

/-- `any(·)` of the children, up to the first that holds. -/
def evalAny (context : Dict String Value) : List ConditionNode → Except Raised Bool
  | [] => .ok false
  | n :: ns => (evalNode context n).bind (fun b => if b then .ok true else evalAny context ns)

end

/-- What leaves `matches`. -/
inductive Failure where
  | invalid (e : AppError)
  | raised (e : Raised)

/-- An answer of the evaluation, as `matches` passes it on. -/
def passOn : Except Raised Bool → Except Failure Bool
  | .ok b => .ok b
  | .error e => .error (.raised e)

/-- `ConditionEngine.matches`. -/
def conditionMatches (andFirst : Bool) (condition : Json) (context : Dict String Value) : Except Failure Bool :=
  match parse andFirst condition with
  | .error e => .error (.invalid e)
  | .ok node => passOn (evalNode context node)

end Irip.Parameters.Conditions
