import Irip.Flow.Dag
import Irip.Flow.Operations

/-!
# `Flow.Engine` — the execution engine

The methods of `FlowExecutionEngine` as programs over the operations. `execute` and `resume` share the node
loop; `retryNode` runs one node and hands over to `resume` when other nodes are still missing.
-/

namespace Irip.Flow

/-- A program of the engine. -/
abbrev M (α : Type) := Prog Op Res Exn α

open Prog (lift)

/-- One operation. -/
abbrev ask (o : Op) : M (Res o) := Prog.perform o

/-! ## Inputs -/

def protectedParams : List String :=
  ["path", "file_path", "input_path", "output_path", "file", "filename", "source_path", "dest_path",
   "input_file", "output_file", "data_path", "template_path", "config_path", "script_path",
   "executable_path"]

/-- `isinstance(val, str) and val.startswith("artifact:")`. -/
def isArtifact : Json → Bool
  | .str s => "artifact:".toList.isPrefixOf s.toList
  | _ => false

/-- The inputs of the bound ports. -/
def boundInputs (node : FlowNode) (nodeOutputs : Dict String JsonDict) (inputSnapshot : JsonDict) :
    JsonDict :=
  node.inputBindings.mapVal (fun binding => resolveInput binding nodeOutputs inputSnapshot)

/-- One turn of the loop over the external inputs. -/
def addExternalInput (inputs : JsonDict) (entry : String × Json) : JsonDict :=
  let (key, val) := entry
  if !val.truthy then inputs
  else if key ∈ protectedParams then
    if isArtifact val then inputs.set key val else inputs
  else if key ∈ inputs.keys then inputs
  else inputs.set key val

/-- The external inputs, merged into the inputs of the bound ports. -/
def addExternalInputs (inputSnapshot inputs : JsonDict) : JsonDict :=
  inputSnapshot.entries.foldl addExternalInput inputs

/-- The inputs of a node in the loop. -/
def loopInputs (node : FlowNode) (nodeOutputs : Dict String JsonDict) (inputSnapshot : JsonDict) : JsonDict :=
  addExternalInputs inputSnapshot (boundInputs node nodeOutputs inputSnapshot)

/-- The inputs of a node in `retry_node`: the external inputs are not merged. -/
def retryInputs (node : FlowNode) (nodeOutputs : Dict String JsonDict) (inputSnapshot : JsonDict) : JsonDict :=
  boundInputs node nodeOutputs inputSnapshot

/-- `value.get(key, default)`, which only a dictionary has. -/
def pyGet (value : Json) (key : String) (default : Json) : Except Exn Json :=
  match value with
  | .obj fields => .ok (((fields.find? (fun f => f.1 = key)).map Prod.snd).getD default)
  | _ => .error (.attributeError "get")

/-- `manifest.parameters.get("properties", {}).get(name, {}).get("default")`. -/
def manifestDefault (manifest : ComponentManifest) (name : String) : Except Exn Json := do
  let props ← pyGet manifest.parameters "properties" (.obj [])
  let prop ← pyGet props name (.obj [])
  pyGet prop "default" .null

/-- The node parameters after the manifest's prompt and tool type have been written over them. -/
def effectiveParams (params : JsonDict) (manifest : ComponentManifest) : Except Exn JsonDict := do
  let prompt ← manifestDefault manifest "prompt"
  let params := if prompt.truthy ∧ "prompt" ∈ params.keys then params.set "prompt" prompt else params
  let toolType ← manifestDefault manifest "tool_type"
  return if toolType.truthy then params.set "tool_type" toolType else params

/-- `merged_params`: what the component is run with. -/
def mergedParams (node : FlowNode) (manifest : ComponentManifest) (inputs : JsonDict) :
    Except Exn JsonDict := do
  return (← effectiveParams node.params manifest).merge inputs

/-! ## One node -/

/-- What `_execute_single_node` returns. -/
structure NodeResult where
  status : NodeStatus
  outputs : JsonDict := ∅
  outputSummary : JsonDict := ∅

/-- An UPDATE of an execution row that raises when it fails. -/
def updateExecution (execution : ExecutionId) (values : ExecutionValues) : M Unit := do
  let done ← ask (.updateExecution execution values)
  lift done

/-- The `try` block of `_execute_single_node`. -/
def tryNode (node : FlowNode) (inputs : JsonDict) (execution : ExecutionId) : M NodeResult := do
  let found ← ask (.getLatest node.componentName)
  let manifest ← lift found
  let params ← lift (mergedParams node manifest inputs)
  let ran ← ask (.runComponent manifest params)
  let result ← lift ran
  let outputSummary := serializeOutputSummary result
  let _ ← ask .now
  updateExecution execution { status := .succeeded, outputSummary := some outputSummary }
  return { status := .succeeded, outputs := result.outputs, outputSummary := outputSummary }

/-- The `except` block of `_execute_single_node`. -/
def recordFailure (execution : ExecutionId) : M NodeResult := do
  let _ ← ask .now
  updateExecution execution { status := .failed }
  return { status := .failed }

def executeSingleNode (run : RunId) (node : FlowNode) (inputs : JsonDict) : M NodeResult := do
  let nowStart ← ask .now
  let execution ← ask (.insertExecution run node.nodeId)
  updateExecution execution { status := .running, startedAt := some nowStart }
  (tryNode node inputs execution).rescue (fun _ => recordFailure execution)

/-! ## The loop -/

/-- The digest `_finalize_run` stores: only a succeeded run has one. -/
def finalDigest (run : RunId) (status : RunStatus) (versionDigest : String) (summaries : List NodeSummary) :
    M (Option String) := do
  if status = .succeeded then
    let found ← ask (.selectRun run)
    return found.map (fun r => computeOutputDigest versionDigest r.inputSnapshot summaries)
  else return none

def finalizeRun (run : RunId) (status : RunStatus) (versionDigest : String) (summaries : List NodeSummary) :
    M Unit := do
  let digest ← finalDigest run status versionDigest summaries
  let now ← ask .now
  ask (.updateRun run { status := some status, completedAt := some now, outputDigest := digest })

def updateJobStatus (jobId : Option Jobs.JobId) (status : RunStatus) : M Unit :=
  match jobId with
  | none => return ()
  | some j => ask (.updateJobStatus j status.value)

/-- `_finalize_run` and `_update_job_status`, which always follow each other. -/
def finish (run : RunId) (jobId : Option Jobs.JobId) (versionDigest : String) (status : RunStatus)
    (summaries : List NodeSummary) : M Unit := do
  finalizeRun run status versionDigest summaries
  updateJobStatus jobId status

theorem issues_finish_of {P : Op → Prop} {run : RunId} (hselect : P (.selectRun run)) (hnow : P .now)
    (hrun : ∀ values, P (.updateRun run values)) (hjob : ∀ j status, P (.updateJobStatus j status))
    (jobId : Option Jobs.JobId) (digest : String) (status : RunStatus) (summaries : List NodeSummary) :
    (finish run jobId digest status summaries).Issues P := by
  refine .bind (.bind ?_ fun _ => .bind (.perform hnow) fun _ => .perform (hrun _)) fun _ => ?_
  · unfold finalDigest
    split
    · exact .bind (.perform hselect) fun _ => trivial
    · trivial
  · unfold updateJobStatus
    cases jobId with
    | none => trivial
    | some j => exact .perform (hjob j _)

/-- What stays the same during one pass of the loop. -/
structure LoopContext where
  run : RunId
  nodeMap : Dict String FlowNode
  inputSnapshot : JsonDict
  jobId : Option Jobs.JobId
  versionDigest : String
  cancelEvent : EventId
  succeededNodes : List String

/-- `_run_node_loop`, from the nodes still ahead, the outputs so far and the summaries so far. -/
def runNodeLoop (c : LoopContext) : List String → Dict String JsonDict → Dict String NodeSummary → M Unit
  | [], _, summaries => finish c.run c.jobId c.versionDigest .succeeded summaries.values
  | id :: rest, nodeOutputs, summaries => do
    let cancelled ← ask (.isSet c.cancelEvent)
    if cancelled then finish c.run c.jobId c.versionDigest .cancelled summaries.values
    else if id ∈ c.succeededNodes then runNodeLoop c rest nodeOutputs summaries
    else
      match c.nodeMap.get? id with
      | none => .raise (.keyError id)
      | some node =>
        let result ← executeSingleNode c.run node (loopInputs node nodeOutputs c.inputSnapshot)
        let nodeOutputs := nodeOutputs.set id result.outputs
        let summaries := summaries.set id
          { nodeId := id, status := result.status, outputSummary := result.outputSummary }
        if result.status ≠ .succeeded then
          finish c.run c.jobId c.versionDigest .failed summaries.values
        else runNodeLoop c rest nodeOutputs summaries

/-! ## Calls -/

/-- The SELECTs every call but `cancel` begins with. -/
def loadRun (run : RunId) : M (FlowRun × FlowDefinitionVersion) := do
  let found ← ask (.selectRun run)
  match found with
  | none =>
    .raise (.app { code := "not_found", message := "流程执行不存在: " ++ toString run,
                   fields := [("run_id", .str (toString run))] })
  | some r =>
    let version ← ask (.selectVersion r.flowVersionId)
    match version with
    | none =>
      .raise (.app { code := "not_found", message := "流程版本不存在: " ++ toString r.flowVersionId,
                     fields := [("flow_version_id", .str (toString r.flowVersionId))] })
    | some v => return (r, v)

/-- The ORM writes the status only when the row it has read has another one. -/
def setStatus (seen status : RunStatus) : Option RunStatus := if seen = status then none else some status

def execute (service : ServiceId) (run : RunId) : M Unit := do
  let (r, version) ← loadRun run
  let now ← ask .now
  ask (.updateRun run { status := setStatus r.status .running, startedAt := some now })
  let cancelEvent ← ask (.newEvent service run)
  let order ← lift (topologicalSort version.nodes version.edges)
  runNodeLoop
    { run := run, nodeMap := nodeMapOf version.nodes, inputSnapshot := r.inputSnapshot, jobId := r.jobId,
      versionDigest := version.digest, cancelEvent := cancelEvent, succeededNodes := [] }
    order ∅ ∅

/-- The rows of the nodes that have succeeded. -/
def succeededRows (rows : List FlowNodeExecution) : List FlowNodeExecution :=
  rows.filter (fun e => e.status = .succeeded)

/-- The outputs a resumed or retried run starts from: the stored summaries of the succeeded rows. -/
def storedOutputs (rows : List FlowNodeExecution) : Dict String JsonDict :=
  .ofList ((succeededRows rows).map (fun e => (e.nodeId, e.outputSummary)))

/-- The summaries a resumed run starts from: for each node the last of its rows. -/
def storedSummaries (rows : List FlowNodeExecution) : Dict String NodeSummary :=
  .ofList (rows.map (fun e => (e.nodeId, e.summary)))

def resume (service : ServiceId) (run : RunId) : M Unit := do
  let (r, version) ← loadRun run
  let existing ← ask (.selectExecutions { run := run, byStartedAt := true })
  let now ← ask .now
  ask (.updateRun run { status := setStatus r.status .running, startedAt := some now })
  let order ← lift (topologicalSort version.nodes version.edges)
  let cancelEvent ← ask (.newEvent service run)
  runNodeLoop
    { run := run, nodeMap := nodeMapOf version.nodes, inputSnapshot := r.inputSnapshot, jobId := r.jobId,
      versionDigest := version.digest, cancelEvent := cancelEvent,
      succeededNodes := (succeededRows existing).map FlowNodeExecution.nodeId }
    order (storedOutputs existing) (storedSummaries existing)

def cancel (service : ServiceId) (run : RunId) : M FlowRun := do
  ask (.setEvent service run)
  let found ← ask (.selectRun run)
  match found with
  | none =>
    .raise (.app { code := "not_found", message := "流程执行不存在: " ++ toString run,
                   fields := [("run_id", .str (toString run))] })
  | some r =>
    if r.status = .pending ∨ r.status = .running then
      let now ← ask .now
      ask (.updateRun run { status := some .cancelled, completedAt := some now })
      return { r with status := .cancelled, completedAt := some now }
    else return r

/-- The checks of `retry_node` before the node is run. -/
def checkRetry (run : RunId) (nodes : Dict String FlowNode) (nodeId : String) : M FlowNode :=
  match nodes.get? nodeId with
  | none =>
    .raise (.app { code := "not_found", message := "节点不存在: " ++ nodeId,
                   fields := [("node_id", .str nodeId)] })
  | some node => do
    let rows ← ask (.selectExecutions { run := run, node := some nodeId })
    match rows.head? with
    | none => return node
    | some existing =>
      if existing.status ≠ .failed then
        .raise (.app {
          code := "validation_failed"
          message := "节点 " ++ nodeId ++ " 状态为 " ++ existing.status.value ++ "，仅失败节点可重试"
          fields := [("node_id", .str nodeId), ("status", .str existing.status.value)] })
      else return node

/-- What `retry_node` does once its node has been run. After a success the run is finished from all its
rows, or the missing nodes are left to `resume`. -/
def afterRetry (service : ServiceId) (run : RunId) (nodes : Dict String FlowNode)
    (jobId : Option Jobs.JobId) (versionDigest : String) (status : NodeStatus) : M Unit :=
  if status = .succeeded then do
    let done ← ask (.selectExecutions { run := run, status := some .succeeded })
    if ∀ id ∈ nodes.keys, id ∈ done.map FlowNodeExecution.nodeId then
      let all ← ask (.selectExecutions { run := run })
      finish run jobId versionDigest .succeeded (all.map FlowNodeExecution.summary)
    else resume service run
  else finish run jobId versionDigest .failed []

/-- The row `retry_node` hands back. Row keys are random, so the row with the greatest of them is any row of
the node. -/
def latestExecution (run : RunId) (nodeId : String) : M FlowNodeExecution := do
  let rows ← ask (.selectExecutions { run := run, node := some nodeId })
  match rows.head? with
  | some latest => return latest
  | none =>
    .raise (.app { code := "not_found", message := "节点执行记录不存在: " ++ nodeId,
                   fields := [("node_id", .str nodeId)] })

def retryNode (service : ServiceId) (run : RunId) (nodeId : String) : M FlowNodeExecution := do
  let (r, version) ← loadRun run
  let nodeMap := nodeMapOf version.nodes
  let node ← checkRetry run nodeMap nodeId
  ask (.updateRun run { status := setStatus r.status .running })
  let done ← ask (.selectExecutions { run := run, status := some .succeeded })
  let inputs := retryInputs node (storedOutputs done) r.inputSnapshot
  let _ ← ask (.newEvent service run)
  let result ← executeSingleNode run node inputs
  afterRetry service run nodeMap r.jobId version.digest result.status
  latestExecution run nodeId

/-- A call of the engine of a service instance. -/
inductive Call where
  | execute (service : ServiceId) (run : RunId)
  | resume (service : ServiceId) (run : RunId)
  | cancel (service : ServiceId) (run : RunId)
  | retryNode (service : ServiceId) (run : RunId) (node : String)
deriving DecidableEq

/-- What a call hands back. -/
inductive Reply where
  | none
  | run (r : FlowRun)
  | execution (e : FlowNodeExecution)

/-- The program of a call. -/
def Call.prog : Call → M Reply
  | .execute svc run => do Flow.execute svc run; return .none
  | .resume svc run => do Flow.resume svc run; return .none
  | .cancel svc run => do return .run (← Flow.cancel svc run)
  | .retryNode svc run node => do return .execution (← Flow.retryNode svc run node)

end Irip.Flow
