import Irip.Base.Dict
import Irip.Models.Contract

/-!
# `Models.Adapter` — prediction with a loaded ONNX model

`build_adapter` and `load` check the artifact and open the session; here a session is given. A session is known by the
names of its inputs, the number of its outputs, and what it answers to the tensors at its input positions.
-/

namespace Irip.Models

/-! ## Runtime -/

/-- The exceptions of reading an input and of running a session, as far as they are told apart. -/
inductive Raised where
  | keyError
  | typeError
  | valueError
  | timeoutError
  | other
  deriving DecidableEq

/-- What a call raises: an application error, or another exception. -/
inductive Exn where
  | app (e : AppError)
  | python

/-- An inference session with `outputs` outputs. A tensor is known by its numbers. -/
structure Session (F : Type) (outputs : Nat) where
  inputs : List String
  run : List (List F) → Except Raised (Fin outputs → List Json)

/-- What the code takes from Python and from `jsonschema`. -/
structure Runtime (F D : Type) where
  /-- `np.float32(float(v))`. -/
  number : Json → Except Raised F
  /-- `float(v)`. -/
  float : Json → Except Raised D
  lt : D → D → Bool
  repr : D → String
  /-- The message of the `ValidationError` of `jsonschema.validate(instance, schema)`. -/
  validation : Json → Json → Option String

variable {F D : Type}

/-! ## Checks -/

/-- `_validate_input_schema`: the errors. -/
def validateInput (rt : Runtime F D) (inputs : Fields) (contract : ModelContract) : List String :=
  if contract.inputSchema.isEmpty then []
  else ((rt.validation (.obj contract.inputSchema) (.obj inputs)).map
    (fun message => "input_validation_failed: " ++ message)).toList

/-- The errors of a number and its bounds. -/
def checkBounds (rt : Runtime F D) (dimension : String) (value bounds : Json) : Except Exn (List String) :=
  match bounds with
  | .obj bounds =>
    let minVal := Json.get bounds "min"
    let maxVal := Json.get bounds "max"
    if minVal.isNone || maxVal.isNone then .ok []
    else match rt.float value, rt.float minVal, rt.float maxVal with
      | .ok x, .ok low, .ok high =>
        if rt.lt x low || rt.lt high x then
          .ok ["outside_applicability_domain",
            s!"dimension '{dimension}' value {rt.repr x} outside [{minVal.pyStr}, {maxVal.pyStr}]"]
        else .ok []
      | _, _, _ => .error .python
  | _ => .error .python

/-- The errors of one dimension of a domain. A dimension that is missing, or no number, is not checked. -/
def checkDimension (rt : Runtime F D) (inputs : Fields) (dimension : String) (bounds : Json) :
    Except Exn (List String) :=
  match Json.get inputs dimension with
  | .int n => checkBounds rt dimension (.int n) bounds
  | .float r => checkBounds rt dimension (.float r) bounds
  | _ => .ok []

/-- `ApplicabilityChecker.check`: the errors. -/
def checkDomain (rt : Runtime F D) (inputs : Fields) (domain : Fields) : Except Exn (List String) := do
  let errors ← domain.mapM (fun m => checkDimension rt inputs m.1 m.2)
  return errors.flatten

/-! ## Prediction -/

/-- `schema.get("properties", {})`, as the names in its order; there are none where it is false. -/
def propertyNames (schema : Fields) : Option (List String) :=
  match (schema.lookup "properties").getD (.obj []) with
  | .obj fs => some (fs.map Prod.fst)
  | v => if v.truthy then none else some []

/-- `list(in_props.keys()) if in_props else list(inputs.keys())`. -/
def inputNames (properties : List String) (inputs : Fields) : List String :=
  if properties.isEmpty then inputs.map Prod.fst else properties

/-- The inputs that the numbers of each tensor are: one row of all inputs, or one input for each tensor. -/
def tensorNames (metas names : List String) : List (List String) :=
  if metas.length = 1 ∧ 1 < names.length then [names]
  else metas.mapIdx (fun idx name => [names.getD idx name])

/-- `float(inputs[name])`, as an element of a tensor. -/
def element (rt : Runtime F D) (inputs : Fields) (name : String) : Except Raised F :=
  match inputs.lookup name with
  | none => .error .keyError
  | some v => rt.number v

/-- The tensors of the names, in their order. -/
def feed (rt : Runtime F D) (inputs : Fields) (tensors : List (List String)) : Except Raised (List (List F)) :=
  tensors.mapM (fun names => names.mapM (element rt inputs))

/-- Under each name, the result and the element of it that is reported: the elements of the only result, or the first
elements of the results. -/
def places (outputs : Nat) (names : List String) : List (String × Nat × Nat) :=
  if outputs = 1 ∧ 1 < names.length then names.mapIdx (fun i name => (name, 0, i))
  else (List.range outputs).map (fun i => (names.getD i s!"output_{i}", i, 0))

/-- `flat[i] if i < len(flat) else 0.0`. -/
def resultAt {outputs : Nat} (results : Fin outputs → List Json) (place : Nat × Nat) : Json :=
  if h : place.1 < outputs then (results ⟨place.1, h⟩).getD place.2 (.float "0.0") else .float "0.0"

/-- The predictions, written in the order of the places. -/
def report {outputs : Nat} (results : Fin outputs → List Json) (ps : List (String × Nat × Nat)) : Dict String Json :=
  Dict.ofList (ps.map (fun p => (p.1, resultAt results p.2)))

/-- A loaded adapter. -/
structure OnnxModelAdapter (F : Type) (outputs : Nat) where
  session : Session F outputs
  contract : ModelContract
  timeoutSeconds : Int

/-- What `predict` makes of an exception. -/
def modelFailed (timeoutSeconds : Int) : Raised → AppError
  | .timeoutError =>
    { code := "model_timeout"
      message := s!"ONNX 推理超时（{timeoutSeconds}s）"
      fields := [("timeout_seconds", .int timeoutSeconds)] }
  | .other => { code := "model_failed", message := "ONNX 推理执行失败" }
  | _ => { code := "model_failed", message := "ONNX 推理输入构造失败" }

/-- The properties of a schema; another value has no `keys`. -/
def propertiesOf (schema : Fields) : Except Exn (List String) :=
  match propertyNames schema with
  | some names => .ok names
  | none => .error .python

def OnnxModelAdapter.predict {outputs : Nat} (rt : Runtime F D) (adapter : OnnxModelAdapter F outputs)
    (inputs : Fields) : Except Exn (Dict String Json) := do
  let properties ← propertiesOf adapter.contract.inputSchema
  let tensors := tensorNames adapter.session.inputs (inputNames properties inputs)
  let results ← (feed rt inputs tensors >>= adapter.session.run).mapError
    (fun e => .app (modelFailed adapter.timeoutSeconds e))
  let outputNames ← propertiesOf adapter.contract.outputSchema
  return report results (places outputs outputNames)

end Irip.Models
