import Irip.Flow.Binding
import Irip.Flow.Params

/-!
# `Flow.Protected` — what external inputs can put under a protected parameter

`PROTECTED_PARAMS` names the parameters that hold paths. The node loop lets an external input through to such
a key only as a reference to an artifact; a port of that name is still filled by its binding, which may name
an external input.
-/

namespace Irip.Flow

open Prog (Ok logged)
open Runs (play_run)

/-! ## Sites -/

/-- Where the inputs of a node are put together. -/
inductive MergeSite where
  | loop
  | retry
deriving DecidableEq

/-- The inputs of a node. -/
def MergeSite.inputs : MergeSite → FlowNode → Dict String JsonDict → JsonDict → JsonDict
  | .loop => loopInputs
  | .retry => retryInputs

/-- The dictionary that reaches the runner. -/
def runnerParams (site : MergeSite) (node : FlowNode) (manifest : ComponentManifest)
    (nodeOutputs : Dict String JsonDict) (inputSnapshot : JsonDict) : Except Exn JsonDict :=
  mergedParams node manifest (site.inputs node nodeOutputs inputSnapshot)

/-- What reaches the runner under a key. -/
def valueAt (params : Except Exn JsonDict) (key : String) : Option Json :=
  match params with
  | .ok p => p.get? key
  | .error _ => none

/-! ## What the runner receives -/

section Received

variable {v : FlowDefinitionVersion} {snapshot : JsonDict} {α : Type}

end Received

/-! ### Calls -/

section Calls

variable {s : State} {run : RunId} {r : FlowRun} {v : FlowDefinitionVersion} {α : Type}

variable (hr : s.runs[run]? = some r) (hv : s.versions[r.flowVersionId]? = some v)

include hr hv

end Calls

/-- The artifact the snapshot refers to under the key. -/
def artifactAt (inputSnapshot : JsonDict) (key : String) : Option Json :=
  (inputSnapshot.get? key).filter isArtifact

section Protected

variable {node : FlowNode} {manifest : ComponentManifest} {nodeOutputs : Dict String JsonDict}
  {snapshot snapshot' : JsonDict} {key : String}

/-- The value a port is given by its binding depends on the snapshot only where the binding names an external
input. -/
theorem boundInputs_congr_snapshot
    (h : ∀ name, node.inputBindings.get? key = some name → splitBinding name = none →
      getOrNone snapshot name = getOrNone snapshot' name) :
    (boundInputs node nodeOutputs snapshot).get? key = (boundInputs node nodeOutputs snapshot').get? key := by
  rw [get?_boundInputs, get?_boundInputs]
  cases hb : node.inputBindings.get? key with
  | none => rfl
  | some binding =>
    rw [Option.map_some, Option.map_some]
    unfold resolveInput
    cases hsplit : splitBinding binding with
    | some ref => rfl
    | none => simp only [h binding hb hsplit]

theorem get?_loopInputs_protected (hkey : key ∈ protectedParams) :
    (loopInputs node nodeOutputs snapshot).get? key
      = (artifactAt snapshot key).or ((boundInputs node nodeOutputs snapshot).get? key) := by
  unfold loopInputs artifactAt
  rw [get?_addExternalInputs]
  cases hval : snapshot.get? key with
  | none => rfl
  | some val =>
    have hadm : Admissible (boundInputs node nodeOutputs snapshot) key val ↔ isArtifact val = true := by
      unfold Admissible
      rw [if_pos hkey]
      refine ⟨And.right, fun ha => ⟨?_, ha⟩⟩
      -- a reference to an artifact is not empty
      cases val with
      | str t =>
        have hne : t ≠ "" := by
          rintro rfl
          exact absurd ha (by decide)
        simpa [Json.truthy] using hne
      | _ => cases ha
    show (if _ then _ else _) = _
    by_cases ha : isArtifact val = true
    · rw [if_pos (hadm.mpr ha), Option.filter_some, if_pos ha, Option.some_or]
    · rw [if_neg (mt hadm.mp ha), Option.filter_some, if_neg ha, Option.none_or]

/-- **External inputs reach a protected key in two ways only.** Whatever the node, the manifest, the upstream
outputs and the site, two snapshots put the same under a protected key if they refer to the same artifact
under it, or the site is that of `retry_node`, and if they agree on the external input that the port of
that name is bound to, should it be bound to one. -/
theorem protected_noninterference (site : MergeSite) (hkey : key ∈ protectedParams)
    (hartifact : site = .loop → artifactAt snapshot key = artifactAt snapshot' key)
    (hexternal : ∀ name, node.inputBindings.get? key = some name → splitBinding name = none →
      getOrNone snapshot name = getOrNone snapshot' name) :
    valueAt (runnerParams site node manifest nodeOutputs snapshot) key
      = valueAt (runnerParams site node manifest nodeOutputs snapshot') key := by
  have hbound : (boundInputs node nodeOutputs snapshot).get? key = (boundInputs node nodeOutputs snapshot').get? key :=
    boundInputs_congr_snapshot hexternal
  have hinputs : (site.inputs node nodeOutputs snapshot).get? key
      = (site.inputs node nodeOutputs snapshot').get? key := by
    cases site with
    | loop =>
      show (loopInputs node nodeOutputs snapshot).get? key = (loopInputs node nodeOutputs snapshot').get? key
      rw [get?_loopInputs_protected hkey, get?_loopInputs_protected hkey, hartifact rfl, hbound]
    | retry => exact hbound
  unfold runnerParams mergedParams
  cases effectiveParams node.params manifest with
  | error e => rfl
  | ok base =>
    show (base.merge _).get? key = (base.merge _).get? key
    rw [Dict.get?_merge, Dict.get?_merge, hinputs]

end Protected

/-- A node that reads the path from the node before it. -/
def pathNode : FlowNode :=
  { nodeId := "b", componentName := "csv", componentVersion := "1", inputBindings := .ofList [("path", "a:out")] }

/-- An external input under the protected name does not get through. -/
theorem protected_noninterference_path :
    valueAt (runnerParams .loop pathNode { name := "csv" } ∅ (.ofList [("path", .str "/etc/passwd")])) "path"
      = valueAt (runnerParams .loop pathNode { name := "csv" } ∅ ∅) "path" := by
  refine protected_noninterference .loop (by decide) (fun _ => ?_) ?_
  · show artifactAt _ "path" = artifactAt ∅ "path"
    rfl
  · intro name hbinding hexternal
    -- the port reads from node `a`, not from an external input
    have hname : pathNode.inputBindings.get? "path" = some "a:out" := by rfl
    rw [hname] at hbinding
    obtain rfl := Option.some.inj hbinding
    have hsplit : splitBinding "a:out" ≠ none := by decide +kernel
    exact absurd hexternal hsplit

/-- External inputs do reach protected keys: a reference to an artifact replaces the value. -/
theorem artifact_passes :
    ¬ ∀ (site : MergeSite) (node : FlowNode) (manifest : ComponentManifest) (nodeOutputs : Dict String JsonDict)
        (snapshot snapshot' : JsonDict) (key : String), key ∈ protectedParams →
      valueAt (runnerParams site node manifest nodeOutputs snapshot) key
        = valueAt (runnerParams site node manifest nodeOutputs snapshot') key := by
  intro h
  have hsame := h .loop pathNode { name := "csv" } ∅ (.ofList [("path", .str "artifact:1")]) ∅ "path" (by decide)
  have hleft : valueAt (runnerParams .loop pathNode { name := "csv" } ∅ (.ofList [("path", .str "artifact:1")]))
      "path" = some (.str "artifact:1") := by rfl
  have hright : valueAt (runnerParams .loop pathNode { name := "csv" } ∅ ∅) "path" = some .null := by rfl
  rw [hleft, hright] at hsame
  cases hsame

end Irip.Flow
