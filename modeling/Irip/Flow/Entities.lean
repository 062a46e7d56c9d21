import Irip.Base.Dict
import Irip.Base.Sha256
import Irip.Jobs.Worker

/-!
# `Flow.Entities` — flows, runs, node executions and their digests

The value objects of a flow version, the rows of `flow_definition_version`, `flow_run` and
`flow_node_execution`, and what a component hands back. A row's primary key is its position in its table.
-/

namespace Irip.Flow

abbrev RunId := Nat
abbrev VersionId := Nat
abbrev ExecutionId := Nat

/-- A JSON object read into a dictionary. -/
abbrev JsonDict := Dict String Json

/-! ## Errors -/

/-- An exception. -/
inductive Exn where
  | app (e : AppError)
  | keyError (key : String)
  | attributeError (name : String)
  | other (type message : String)

/-! ## Status -/

/-- The values of `flow_run.status`. -/
inductive RunStatus where
  | pending
  | running
  | succeeded
  | failed
  | cancelled
deriving DecidableEq, Repr

/-- The stored text of a run status. -/
def RunStatus.value : RunStatus → String
  | .pending => "pending"
  | .running => "running"
  | .succeeded => "succeeded"
  | .failed => "failed"
  | .cancelled => "cancelled"

/-- The values of `flow_node_execution.status`. -/
inductive NodeStatus where
  | pending
  | running
  | succeeded
  | failed
deriving DecidableEq, Repr

/-- The stored text of a node status. -/
def NodeStatus.value : NodeStatus → String
  | .pending => "pending"
  | .running => "running"
  | .succeeded => "succeeded"
  | .failed => "failed"

/-! ## Definitions -/

/-- A node: a component, its parameters, and the binding of each input port. -/
structure FlowNode where
  nodeId : String
  componentName : String
  componentVersion : String
  params : JsonDict := ∅
  inputBindings : Dict String String := ∅

/-- An edge from an output port to an input port. -/
structure FlowEdge where
  sourceNode : String
  sourcePort : String
  targetNode : String
  targetPort : String

/-- A row of `flow_definition_version`; `nodes` and `edges` are what its JSON columns decode to. -/
structure FlowDefinitionVersion where
  flowDefinitionId : Nat
  version : Nat
  nodes : List FlowNode
  edges : List FlowEdge
  randomSeed : Int
  digest : String
  publishedAt : Time

/-! ## Components -/

/-- A port of a component. -/
structure PortSpec where
  name : String
  dataType : String
  required : Bool := true

/-- The part of a component manifest the flow package reads. -/
structure ComponentManifest where
  name : String
  inputs : List PortSpec := []
  outputs : List PortSpec := []
  parameters : Json := .obj []

/-- What a component returns. -/
structure ComponentResult where
  outputs : JsonDict
  summary : String
  metadata : JsonDict := ∅

/-! ## Rows -/

/-- A row of `flow_run`. -/
structure FlowRun where
  flowVersionId : VersionId
  status : RunStatus := .pending
  jobId : Option Jobs.JobId := none
  inputSnapshot : JsonDict := ∅
  outputDigest : Option String := none
  startedAt : Option Time := none
  completedAt : Option Time := none

/-- A row of `flow_node_execution`. -/
structure FlowNodeExecution where
  flowRunId : RunId
  nodeId : String
  status : NodeStatus := .pending
  outputSummary : JsonDict := ∅
  startedAt : Option Time := none

/-! ## Summaries -/

/-- `serialize_output_summary`. Every value of a result can be written with `default=str`, so its fallback
is never taken. -/
def serializeOutputSummary (result : ComponentResult) : JsonDict :=
  ((result.outputs.mapVal Json.plain).set "_metadata" (.obj result.metadata.entries)).set
    "_summary_text" (.str result.summary)

/-- What the engine keeps of a node execution for the digest. -/
structure NodeSummary where
  nodeId : String
  status : NodeStatus
  outputSummary : JsonDict

/-- The dictionary a `NodeSummary` stands for. -/
def NodeSummary.toJson (s : NodeSummary) : Json :=
  .obj [("node_id", .str s.nodeId), ("status", .str s.status.value),
        ("output_summary", .obj s.outputSummary.entries)]

/-- What a stored row contributes to the digest. -/
def FlowNodeExecution.summary (e : FlowNodeExecution) : NodeSummary :=
  { nodeId := e.nodeId, status := e.status, outputSummary := e.outputSummary }

/-! ## Digests -/

def computeOutputDigest (versionDigest : String) (inputSnapshot : JsonDict)
    (nodeExecutions : List NodeSummary) : String :=
  Sha256.hexdigest (Json.chars (.obj
    [("version_digest", .str versionDigest),
     ("input_snapshot", .obj inputSnapshot.entries),
     ("node_summaries", .arr (nodeExecutions.map NodeSummary.toJson))]))

/-- `node_to_dict`. -/
def FlowNode.toJson (n : FlowNode) : Json :=
  .obj [("node_id", .str n.nodeId), ("component_name", .str n.componentName),
        ("component_version", .str n.componentVersion), ("params", .obj n.params.entries),
        ("input_bindings", .obj (n.inputBindings.mapVal Json.str).entries)]

/-- `edge_to_dict`. -/
def FlowEdge.toJson (e : FlowEdge) : Json :=
  .obj [("source_node", .str e.sourceNode), ("source_port", .str e.sourcePort),
        ("target_node", .str e.targetNode), ("target_port", .str e.targetPort)]

def computeFlowDigest (nodes : List FlowNode) (edges : List FlowEdge) (randomSeed : Int) : String :=
  Sha256.hexdigest (Json.chars (.obj
    [("nodes", .arr (nodes.map FlowNode.toJson)), ("edges", .arr (edges.map FlowEdge.toJson)),
     ("random_seed", .int randomSeed)]))

end Irip.Flow
