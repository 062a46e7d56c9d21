import Irip.Numeric.Eval

/-!
# `Numeric.Facade` — requests to evaluate an expression

What `evaluate_expression` does around the engine: it reads the arguments of the tool call, resolves the data of the
variables, and turns what is raised into an error result. The time limit of a computation is left out.
-/

namespace Irip.Numeric

/-! ## Sources -/

inductive SourceType where
  | scalar
  | inline
  | factSeries
  | artifactSeries
  deriving DecidableEq

/-- `_VALID_SOURCE_TYPES`. -/
def SourceType.ofText : String → Option SourceType
  | "scalar" => some .scalar
  | "inline" => some .inline
  | "fact_series" => some .factSeries
  | "artifact_series" => some .artifactSeries
  | _ => none

/-- A number of a request. -/
inductive Number where
  | int (n : Int)
  | float (repr : String)

/-- The number a value is. -/
def Number.ofJson : Json → Option Number
  | .int n => some (.int n)
  | .float r => some (.float r)
  | _ => none

/-- Where the data of a variable comes from. -/
structure NumericSource where
  name : String
  sourceType : SourceType
  value : Option Number
  values : Option (List Json)
  unit : Option String
  factId : Option String
  artifactId : Option String
  seriesIndex : Option Int
  columnName : Option String

/-- An error about a source. -/
def invalidSource (message path : String) : NumericError :=
  { code := "numeric_invalid_source", message := message, path := path }

/-- The value that has to be there. -/
def require {α : Type} (x : Option α) (e : NumericError) : Except Exn α :=
  match x with
  | some a => .ok a
  | none => .error (.numeric e)

def isAsciiLetter (c : Char) : Bool := ('A' ≤ c && c ≤ 'Z') || ('a' ≤ c && c ≤ 'z') || c == '_'

def isAsciiDigit (c : Char) : Bool := '0' ≤ c && c ≤ '9'

/-- A letter or underscore, and at most 63 letters, digits and underscores. -/
def isVariableText : List Char → Bool
  | [] => false
  | c :: cs => isAsciiLetter c && cs.all (fun d => isAsciiLetter d || isAsciiDigit d) && cs.length ≤ 63

/-- `re.match(r"^[A-Za-z_][A-Za-z0-9_]{0,63}$", name)`: the `$` also matches before a final newline. -/
def isVariableName (name : String) : Bool :=
  isVariableText name.toList ||
    (name.toList.getLast? == some '\n' && isVariableText name.toList.dropLast)

/-- The fields a source may have. -/
def allowedKeys : List String :=
  ["name", "source_type", "value", "values", "unit", "fact_id", "artifact_id", "series_index", "column_name"]

section ParseSource

variable (var : List (String × Json)) (pathPrefix : String)

/-- Fields that belong to platform sources are given. -/
def hasPlatformFields : Bool :=
  (Json.get var "fact_id").truthy || (Json.get var "artifact_id").truthy ||
    !(Json.get var "series_index").isNone || (Json.get var "column_name").truthy

def checkScalar : Except Exn Unit := do
  raiseIf (Json.get var "value").isNone (invalidSource "scalar source requires 'value'" (pathPrefix ++ ".value"))
  raiseIf (!(Json.get var "values").isNone)
    (invalidSource "scalar source must not have 'values'" (pathPrefix ++ ".values"))
  raiseIf (hasPlatformFields var) (invalidSource "scalar source must not have platform fields" pathPrefix)

def checkInline : Except Exn Unit := do
  raiseIf (Json.get var "values").isNone (invalidSource "inline source requires 'values'" (pathPrefix ++ ".values"))
  raiseIf (!(Json.get var "value").isNone)
    (invalidSource "inline source must not have 'value'" (pathPrefix ++ ".value"))
  raiseIf (hasPlatformFields var) (invalidSource "inline source must not have platform fields" pathPrefix)

/-- What is checked first of both kinds of platform sources. -/
def checkPlatform (kind idKey : String) : Except Exn Unit := do
  raiseIf (!(Json.get var idKey).truthy)
    (invalidSource (kind ++ " requires '" ++ idKey ++ "'") (pathPrefix ++ "." ++ idKey))
  raiseIf (Json.get var "series_index").isNone
    (invalidSource (kind ++ " requires 'series_index'") (pathPrefix ++ ".series_index"))
  raiseIf (!(Json.get var "column_name").truthy)
    (invalidSource (kind ++ " requires 'column_name'") (pathPrefix ++ ".column_name"))
  raiseIf (!(Json.get var "unit").isNone)
    (invalidSource "platform source must not specify 'unit'" (pathPrefix ++ ".unit"))

def checkSeriesIndex : Except Exn Unit :=
  raiseIf (!(Json.get var "series_index").asInt.any (fun n => 0 ≤ n))
    (invalidSource "series_index must be a non-negative integer" (pathPrefix ++ ".series_index"))

def checkFactSeries : Except Exn Unit := do
  checkPlatform var pathPrefix "fact_series" "fact_id"
  raiseIf (!(Json.get var "value").isNone || !(Json.get var "values").isNone)
    (invalidSource "fact_series must not have 'value' or 'values'" pathPrefix)
  checkSeriesIndex var pathPrefix
  raiseIf (!(Json.get var "column_name").asStr.any (fun s => 1 ≤ s.length && s.length ≤ 128))
    (invalidSource "column_name must be 1-128 characters" (pathPrefix ++ ".column_name"))

def checkArtifactSeries : Except Exn Unit := do
  checkPlatform var pathPrefix "artifact_series" "artifact_id"
  checkSeriesIndex var pathPrefix

/-- The fields a source of the type has to have, and must not have. -/
def checkFields : SourceType → Except Exn Unit
  | .scalar => checkScalar var pathPrefix
  | .inline => checkInline var pathPrefix
  | .factSeries => checkFactSeries var pathPrefix
  | .artifactSeries => checkArtifactSeries var pathPrefix

def checkUnit : Except Exn Unit :=
  match Json.get var "unit" with
  | .null => .ok ()
  | .str s => raiseIf (s.length > 64) (invalidSource "unit exceeds 64 characters" (pathPrefix ++ ".unit"))
  | _ => .error (.numeric (invalidSource "unit must be a string" (pathPrefix ++ ".unit")))

def parseSource : Except Exn NumericSource := do
  let unknown := (var.map Prod.fst).filter (fun key => !allowedKeys.contains key)
  raiseIf (!unknown.isEmpty)
    (invalidSource ("unknown fields: " ++ (Json.arr ((unknown.insertionSort (· ≤ ·)).map .str)).pyStr) pathPrefix)
  let name ← require (Json.get var "name").asStr
    (invalidSource "'name' must be a non-empty string" (pathPrefix ++ ".name"))
  raiseIf (name.length == 0) (invalidSource "'name' must be a non-empty string" (pathPrefix ++ ".name"))
  raiseIf (!isVariableName name) (invalidSource ("invalid variable name: " ++ name) (pathPrefix ++ ".name"))
  let sourceType ← require ((Json.get var "source_type").asStr.bind SourceType.ofText)
    (invalidSource ("invalid source_type: " ++ (Json.get var "source_type").pyStr) (pathPrefix ++ ".source_type"))
  checkFields var pathPrefix sourceType
  checkUnit var pathPrefix
  return { name := name
           sourceType := sourceType
           value := Number.ofJson (Json.get var "value")
           values := (Json.get var "values").asArr
           unit := (Json.get var "unit").asStr
           factId := (Json.get var "fact_id").asStr
           artifactId := (Json.get var "artifact_id").asStr
           seriesIndex := (Json.get var "series_index").asInt
           columnName := (Json.get var "column_name").asStr }

end ParseSource

/-- The variable at the index `i`, after variables with the names `seen`. -/
def parseVariable (i : Nat) (seen : List String) (var : Json) : Except Exn NumericSource := do
  let fields ← match var with
    | .obj fields => .ok fields
    | _ => .error (.numeric (invalidSource s!"variable at index {i} must be an object" s!"variables[{i}]"))
  let source ← parseSource fields s!"variables[{i}]"
  raiseIf (seen.contains source.name)
    (invalidSource s!"duplicate variable name: {source.name}" s!"variables[{i}].name")
  return source

/-- The variables from the index `i` on. -/
def parseItems (i : Nat) (seen : List String) : List Json → Except Exn (List NumericSource)
  | [] => .ok []
  | var :: vars => do
    let source ← parseVariable i seen var
    let sources ← parseItems (i + 1) (source.name :: seen) vars
    return source :: sources

/-- The limits of the service: those of an evaluation, and the length of a series in a request. -/
structure ServiceLimits extends NumericLimits where
  maxInlineSeriesLength : Nat := 10000

section ParseArguments

variable (limits : NumericLimits) (args : List (String × Json))

def parseVariables : Except Exn (List NumericSource) := do
  let items ← require (Json.get args "variables").asArr (invalidSource "'variables' must be an array" "variables")
  raiseIf (items.length > limits.maxVariables)
    { code := "numeric_size_limit"
      message := s!"too many variables ({items.length} > {limits.maxVariables})"
      path := "variables" }
  parseItems 0 [] items

def parseExpression : Except Exn String := do
  let expression ← require (Json.get args "expression").asStr
    { code := "numeric_expression_rejected", message := "'expression' must be a string", path := "expression" }
  raiseIf (expression.length == 0)
    { code := "numeric_expression_rejected", message := "'expression' must not be empty", path := "expression" }
  raiseIf (expression.length > limits.maxExpressionLength)
    { code := "numeric_size_limit"
      message := s!"'expression' exceeds max length ({limits.maxExpressionLength})"
      path := "expression" }
  return expression

end ParseArguments

/-- An option with the values it may have; `value` is what `data.get(key, default)` gives. -/
def checkOption {α : Type} (key : String) (value : Json) (choices : List (String × α)) : Except Exn α :=
  require (value.asStr.bind (fun text => choices.lookup text))
    (invalidSource ("unsupported " ++ key ++ ": " ++ value.pyStr) ("options." ++ key))

/-- `data.get(key, default)`. -/
def optionOr (data : List (String × Json)) (key default : String) : Json := (data.lookup key).getD (.str default)

/-- `ExpressionOptions.from_dict`. An argument that is no object has no `get`. -/
def ExpressionOptions.fromDict (data : Json) : Except Exn ExpressionOptions :=
  match data with
  | .null => .ok {}
  | .obj data => do
    let angleUnit ← checkOption "angle_unit" (optionOr data "angle_unit" "radian")
      [("radian", AngleUnit.radian), ("degree", .degree)]
    let nullPolicy ← checkOption "null_policy" (optionOr data "null_policy" "fail")
      [("fail", NullPolicy.fail), ("propagate", .propagate)]
    checkOption "numeric_coercion" (optionOr data "numeric_coercion" "strict") [("strict", ())]
    checkOption "broadcast_policy" (optionOr data "broadcast_policy" "scalar_only") [("scalar_only", ())]
    checkOption "domain_error" (optionOr data "domain_error" "fail") [("fail", ())]
    checkOption "numeric_type" (optionOr data "numeric_type" "float64") [("float64", ())]
    return { angleUnit := angleUnit, nullPolicy := nullPolicy }
  | _ => .error (.python .attributeError)

/-! ## Resolution -/

/-- An error that names a variable in its text and its path. -/
structure NamedError where
  code : String
  message : String → String
  path : String → String
  details : List (String × Json) := []

/-- The error for the variable `name`. -/
def NamedError.of (e : NamedError) (name : String) : NumericError :=
  { code := e.code, message := e.message name, path := e.path name, details := e.details }

/-- What the facade is built with, for one principal: the engine, Python's `float`, whether the principal may read
artifacts, and what reading a series of a fact gives. -/
structure Service (F : Type) where
  parser : Parser F
  arith : Arith F
  limits : ServiceLimits
  toFloat : Number → Except PyExn F
  artifactRead : Bool
  factSeries : Option String → Option Int → Option String → Except NamedError (Series F × Option String)

namespace Service

variable {F : Type} (S : Service F)

def validateUnit (unit : Option String) (name : String) : Except Exn Unit :=
  raiseIf (unit.any (fun u => u.length > 64))
    (invalidSource "unit exceeds 64 characters" s!"variables.{name}.unit")

/-- A float that has to be finite. -/
def finiteFloat (n : Number) (message path : String) : Except Exn F := do
  let x ← unguarded (S.toFloat n)
  raiseIf (!S.arith.isFinite x) { code := "numeric_non_finite_result", message := message, path := path }
  return x

/-- `_resolve_scalar`. A value that is no number was dropped by `parseSource`. -/
def resolveScalar (source : NumericSource) : Except Exn (ResolvedNumericInput F) := do
  let value ← require source.value
    (invalidSource "scalar source requires 'value' field" s!"variables.{source.name}.value")
  let x ← S.finiteFloat value "scalar value must be finite" s!"variables.{source.name}.value"
  validateUnit source.unit source.name
  return { name := source.name, series := .scalar x, unit := source.unit }

/-- One element of an inline series. -/
def resolveItem (name : String) (i : Nat) (raw : Json) : Except Exn (Cell F) :=
  match raw with
  | .null => .ok ⟨S.arith.zero, true⟩
  | .int n => do
    return ⟨← S.finiteFloat (.int n) s!"element at index {i} is not finite (NaN or Infinity)"
      s!"variables.{name}.values[{i}]", false⟩
  | .float r => do
    return ⟨← S.finiteFloat (.float r) s!"element at index {i} is not finite (NaN or Infinity)"
      s!"variables.{name}.values[{i}]", false⟩
  | .bool _ => .error (.numeric
      { code := "numeric_non_numeric"
        message := s!"element at index {i} is boolean, not numeric"
        path := s!"variables.{name}.values[{i}]" })
  | .str _ => .error (.numeric
      { code := "numeric_non_numeric"
        message := s!"element at index {i} is string, not numeric"
        path := s!"variables.{name}.values[{i}]" })
  | .other _ => .error (.python .typeError)
  | _ => .error (.numeric
      { code := "numeric_non_numeric"
        message := s!"element at index {i} is nested structure, not numeric"
        path := s!"variables.{name}.values[{i}]" })

/-- The elements of an inline series from the index `i` on. -/
def resolveItems (name : String) (i : Nat) : List Json → Except Exn (List (Cell F))
  | [] => .ok []
  | raw :: raws => do
    let cell ← S.resolveItem name i raw
    let cells ← resolveItems name (i + 1) raws
    return cell :: cells

def resolveInline (source : NumericSource) : Except Exn (ResolvedNumericInput F) := do
  let raws ← require source.values
    (invalidSource "inline source requires 'values' field" s!"variables.{source.name}.values")
  raiseIf (raws.length > S.limits.maxInlineSeriesLength)
    { code := "numeric_size_limit"
      message := s!"inline series length {raws.length} exceeds limit ({S.limits.maxInlineSeriesLength})"
      path := s!"variables.{source.name}.values"
      details := [("count", .int raws.length), ("limit", .int S.limits.maxInlineSeriesLength)] }
  let cells ← S.resolveItems source.name 0 raws
  validateUnit source.unit source.name
  return { name := source.name, series := .vector cells, unit := source.unit }

def resolveFactSeries (source : NumericSource) : Except Exn (ResolvedNumericInput F) :=
  match S.factSeries source.factId source.seriesIndex source.columnName with
  | .ok (series, unit) => .ok { name := source.name, series := series, unit := unit }
  | .error e => .error (.numeric (e.of source.name))

/-- `_resolve_artifact_series`: not there yet. -/
def resolveArtifactSeries (source : NumericSource) : Except Exn (ResolvedNumericInput F) :=
  if S.artifactRead then
    .error (.numeric
      (invalidSource "artifact_series not yet supported" s!"variables.{source.name}.source_type"))
  else
    .error (.numeric
      { code := "numeric_field_not_found"
        message := s!"permission 'artifact:read' required for variable '{source.name}'"
        path := s!"variables.{source.name}" })

def resolve (source : NumericSource) : Except Exn (ResolvedNumericInput F) :=
  match source.sourceType with
  | .scalar => S.resolveScalar source
  | .inline => S.resolveInline source
  | .factSeries => S.resolveFactSeries source
  | .artifactSeries => S.resolveArtifactSeries source

/-- The data of the variables, by name. The sources are resolved concurrently; the first error in their order is
the one that counts here. -/
def resolveAll : List NumericSource → Except Exn (List (String × ResolvedNumericInput F))
  | [] => .ok []
  | source :: sources => do
    let value ← S.resolve source
    let rest ← resolveAll sources
    return (source.name, value) :: rest

end Service

/-! ## Evaluation -/

/-- What the arguments of a call ask for. -/
structure Request where
  expression : String
  sources : List NumericSource
  options : ExpressionOptions

/-- What the facade catches: an expected error as it is, and everything else as an internal error. -/
def guarded {α : Type} : Except Exn α → Except NumericError α
  | .ok a => .ok a
  | .error (.numeric e) => .error e
  | .error (.python _) => .error { code := "numeric_internal_error", message := "unexpected internal error" }

namespace Service

variable {F : Type} (S : Service F)

/-- The arguments, read. What this raises reaches the caller. -/
def request (args : List (String × Json)) : Except Exn Request := do
  let expression ← parseExpression S.limits.toNumericLimits args
  let sources ← parseVariables S.limits.toNumericLimits args
  let options ← ExpressionOptions.fromDict (Json.get args "options")
  return { expression := expression, sources := sources, options := options }

/-- The data is resolved and the expression evaluated. -/
def run (r : Request) : Except NumericError (NumericValue F) :=
  guarded (do
    let vars ← S.resolveAll r.sources
    evaluate S.parser S.arith S.limits.toNumericLimits r.expression vars r.options)

def evaluateExpression (args : List (String × Json)) : Except Exn (Except NumericError (NumericValue F)) := do
  let r ← S.request args
  return S.run r

end Service

end Irip.Numeric
