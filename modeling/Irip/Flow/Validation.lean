import Irip.Flow.Dag

/-!
# `Flow.Validation` — the checks before a version is published

`publish_version` accepts nodes and edges that pass three validators. The component registry and the JSON
Schema library are parameters: `registry name version` is `ComponentRegistryService.get`, `schemaError` the
message of the `ValidationError` that `jsonschema.validate` raises, if any.
-/

namespace Irip.Flow

structure ValidationResult where
  valid : Bool
  errors : List String := []
  warnings : List String := []

/-- The result with these errors and warnings: valid when there is no error. -/
def ValidationResult.of (errors warnings : List String) : ValidationResult :=
  { valid := errors.isEmpty, errors := errors, warnings := warnings }

/-! ## Structure -/

/-- How often the id occurs. -/
def occurrences (ids : List String) (id : String) : Nat := ids.count id

/-- Part 1 of `validate_dag`: ids that occur more than once. -/
def duplicateErrors (ids : List String) : List String :=
  ((Kahn.keys ids).filter (fun id => 1 < occurrences ids id)).map (fun id =>
    "节点 ID 重复: " ++ id ++ "（出现 " ++ toString (occurrences ids id) ++ " 次）")

/-- Part 2 of `validate_dag` for one edge: unknown ends, and an edge from a node to itself. -/
def edgeErrors (ids : List String) (e : FlowEdge) : List String :=
  (if e.sourceNode ∉ ids then ["边引用的源节点不存在: " ++ e.sourceNode] else []) ++
  (if e.targetNode ∉ ids then ["边引用的目标节点不存在: " ++ e.targetNode] else []) ++
  (if e.sourceNode ∈ ids ∧ e.targetNode ∈ ids ∧ e.sourceNode = e.targetNode then
    ["自环边不允许: " ++ e.sourceNode ++ " → " ++ e.targetNode] else [])

/-- The edge takes part in the sort. -/
def FlowEdge.usable (ids : List String) (e : FlowEdge) : Bool :=
  e.sourceNode ∈ ids ∧ e.targetNode ∈ ids ∧ e.sourceNode ≠ e.targetNode

/-- Python's text of a list of strings without quotes or escapes in them. -/
def listRepr (xs : List String) : String := "[" ++ ", ".intercalate (xs.map (fun x => "'" ++ x ++ "'")) ++ "]"

def validateDag (nodes : List FlowNode) (edges : List FlowEdge) : ValidationResult :=
  let ids := nodes.map FlowNode.nodeId
  let validEdges := edges.filter (FlowEdge.usable ids)
  let sorted := Kahn.run ids (validEdges.map FlowEdge.pair)
  let cycleNodes := (Kahn.keys ids).filter (fun id => 0 < sorted.deg id)
  let cycleErrors :=
    if sorted.order.length ≠ nodes.length then
      ["流程存在环（DAG 校验失败），涉及节点: " ++ listRepr (cycleNodes.insertionSort (· ≤ ·))]
    else []
  let connected := validEdges.flatMap (fun e => [e.sourceNode, e.targetNode])
  let isolated := ids.filter (fun id => id ∉ connected)
  .of (duplicateErrors ids ++ edges.flatMap (edgeErrors ids) ++ cycleErrors)
    (isolated.map (fun id => "节点 " ++ id ++ " 无任何输入/输出边（孤立节点）"))

/-! ## Ports and parameters -/

/-- The part of a component version the validators read. -/
structure ComponentVersion where
  inputPorts : List PortSpec
  outputPorts : List PortSpec
  manifest : Except Exn ComponentManifest

/-- `ComponentRegistryService.get`. -/
abbrev Registry := String → String → Except AppError ComponentVersion

/-- The ends of an edge as the messages write them. -/
def FlowEdge.describe (e : FlowEdge) : String :=
  e.sourceNode ++ ":" ++ e.sourcePort ++ " → " ++ e.targetNode ++ ":" ++ e.targetPort

/-- The error of `check_port_types` for one edge. -/
def portError (ports : Dict String ComponentVersion) (e : FlowEdge) : List String :=
  let sourcePorts := ((ports.get? e.sourceNode).map ComponentVersion.outputPorts).getD []
  let targetPorts := ((ports.get? e.targetNode).map ComponentVersion.inputPorts).getD []
  match sourcePorts.find? (fun p => p.name = e.sourcePort), targetPorts.find? (fun p => p.name = e.targetPort) with
  | none, _ => ["边 " ++ e.describe ++ " 源端口不存在"]
  | some _, none => ["边 " ++ e.describe ++ " 目标端口不存在"]
  | some s, some t =>
    if s.dataType ≠ t.dataType ∧ s.dataType ≠ "any" ∧ t.dataType ≠ "any" then
      ["端口类型不兼容: " ++ e.sourceNode ++ ":" ++ e.sourcePort ++ "(" ++ s.dataType ++ ") → " ++
        e.targetNode ++ ":" ++ e.targetPort ++ "(" ++ t.dataType ++ ")"]
    else []

def checkPortTypes (registry : Registry) (nodes : List FlowNode) (edges : List FlowEdge) : ValidationResult :=
  let found := nodes.filterMap (fun n =>
    match registry n.componentName n.componentVersion with
    | .ok v => some (n.nodeId, v)
    | .error _ => none)
  let missing := nodes.flatMap (fun n =>
    match registry n.componentName n.componentVersion with
    | .ok _ => []
    | .error _ => ["节点 " ++ n.nodeId ++ " 引用的组件不存在: " ++ n.componentName ++ "@" ++ n.componentVersion])
  .of (missing ++ edges.flatMap (portError (Dict.ofList found))) []

def checkParamSchema (schemaError : Json → JsonDict → Option String) (node : FlowNode)
    (manifest : ComponentManifest) : ValidationResult :=
  let schemaErrors :=
    if manifest.parameters.truthy then
      match schemaError manifest.parameters node.params with
      | some message => ["节点 " ++ node.nodeId ++ " 参数校验失败: " ++ message]
      | none => []
    else []
  let unbound := manifest.inputs.filter (fun p => p.required && (node.inputBindings.get? p.name).isNone)
  let unused := manifest.outputs.filter (fun p =>
    p.required && !node.inputBindings.values.contains (node.nodeId ++ ":" ++ p.name))
  .of (schemaErrors ++ unbound.map (fun p => "节点 " ++ node.nodeId ++ " 必需输入端口 '" ++ p.name ++ "' 未绑定"))
    (unused.map (fun p => "节点 " ++ node.nodeId ++ " 的必需输出端口 '" ++ p.name ++ "' 未被任何下游节点引用"))

/-! ## Publishing -/

/-- A row of `flow_definition`. -/
structure FlowDefinition where
  status : String := "draft"
  updatedAt : Time := 0
  lockVersion : Nat := 0

/-- The two tables of flow definitions. -/
structure DefinitionDb where
  definitions : List FlowDefinition
  versions : List FlowDefinitionVersion

/-- `AppError(code="validation_failed", …)` with the errors of a validator. -/
def validationFailed (what : String) (errors : List String) (fields : List (String × Json)) : Exn :=
  .app { code := "validation_failed", message := what ++ "; ".intercalate errors,
         fields := fields ++ [("errors", .arr (errors.map Json.str))] }

/-- The checks of `publish_version` on one node. -/
def checkNode (registry : Registry) (schemaError : Json → JsonDict → Option String) (node : FlowNode) :
    Except Exn Unit :=
  match registry node.componentName node.componentVersion with
  | .error _ =>
    .error (.app {
      code := "validation_failed"
      message := "节点 " ++ node.nodeId ++ " 引用的组件不存在: " ++ node.componentName ++ "@" ++
        node.componentVersion
      fields := [("node_id", .str node.nodeId), ("component", .str node.componentName)] })
  | .ok version =>
    match version.manifest with
    | .error e => .error e
    | .ok manifest =>
      let result := checkParamSchema schemaError node manifest
      if result.valid then .ok ()
      else .error (validationFailed ("节点 " ++ node.nodeId ++ " 参数校验失败: ") result.errors
        [("node_id", .str node.nodeId)])

/-- The checks of `publish_version` on all nodes: the first failure is raised. -/
def checkNodes (registry : Registry) (schemaError : Json → JsonDict → Option String) :
    List FlowNode → Except Exn Unit
  | [] => .ok ()
  | n :: ns =>
    match checkNode registry schemaError n with
    | .error e => .error e
    | .ok () => checkNodes registry schemaError ns

/-- The next version number of a definition. -/
def nextVersion (db : DefinitionDb) (definition : Nat) : Nat :=
  ((db.versions.filter (fun v => v.flowDefinitionId = definition)).map FlowDefinitionVersion.version).foldl max 0 + 1

def publishVersion (registry : Registry) (schemaError : Json → JsonDict → Option String) (now : Time)
    (db : DefinitionDb) (definition : Nat) (nodes : List FlowNode) (edges : List FlowEdge)
    (randomSeed : Int) : Except Exn (FlowDefinitionVersion × DefinitionDb) :=
  let dag := validateDag nodes edges
  let ports := checkPortTypes registry nodes edges
  if !dag.valid then .error (validationFailed "DAG 校验失败: " dag.errors [])
  else if !ports.valid then .error (validationFailed "端口类型校验失败: " ports.errors [])
  else
    match checkNodes registry schemaError nodes with
    | .error e => .error e
    | .ok () =>
      match db.definitions[definition]? with
      | none =>
        .error (.app { code := "not_found", message := "流程定义不存在: " ++ toString definition,
                       fields := [("flow_definition_id", .str (toString definition))] })
      | some d =>
        let version : FlowDefinitionVersion :=
          { flowDefinitionId := definition, version := nextVersion db definition, nodes := nodes,
            edges := edges, randomSeed := randomSeed, digest := computeFlowDigest nodes edges randomSeed,
            publishedAt := now }
        .ok (version,
          { definitions := db.definitions.set definition
              { d with status := "published", updatedAt := now, lockVersion := d.lockVersion + 1 }
            versions := db.versions ++ [version] })

/-- The version comes from `publish_version`. -/
def FlowDefinitionVersion.Published (v : FlowDefinitionVersion) : Prop :=
  ∃ (registry : Registry) (schemaError : Json → JsonDict → Option String) (now : Time) (db db' : DefinitionDb)
    (definition : Nat) (nodes : List FlowNode) (edges : List FlowEdge) (randomSeed : Int),
    publishVersion registry schemaError now db definition nodes edges randomSeed = .ok (v, db')

/-! ## What is accepted -/

section

variable {nodes : List FlowNode} {edges : List FlowEdge}

theorem edgeErrors_eq_nil {ids : List String} {e : FlowEdge} :
    edgeErrors ids e = [] ↔ e.usable ids = true := by
  unfold edgeErrors FlowEdge.usable
  by_cases hs : e.sourceNode ∈ ids
  · by_cases ht : e.targetNode ∈ ids
    · simp [hs, ht]
    · simp [hs, ht]
  · simp [hs]

theorem validateDag_valid (h : (validateDag nodes edges).valid = true) :
    (∀ e ∈ edges, e.usable (nodes.map FlowNode.nodeId) = true) ∧
    (Kahn.run (nodes.map FlowNode.nodeId) (edges.map FlowEdge.pair)).order.length = nodes.length := by
  simp only [validateDag, ValidationResult.of, List.isEmpty_iff, List.append_eq_nil_iff,
    List.flatMap_eq_nil_iff, edgeErrors_eq_nil] at h
  obtain ⟨⟨_, husable⟩, hcycle⟩ := h
  have hfilter : edges.filter (FlowEdge.usable (nodes.map FlowNode.nodeId)) = edges :=
    List.filter_eq_self.mpr husable
  rw [hfilter] at hcycle
  refine ⟨husable, ?_⟩
  by_contra hne
  rw [if_pos hne] at hcycle
  cases hcycle

/-- **`topological_sort` succeeds on what `validate_dag` accepts.** -/
theorem topologicalSort_of_validateDag (h : (validateDag nodes edges).valid = true) :
    ∃ order, topologicalSort nodes edges = .ok order := by
  obtain ⟨husable, hlen⟩ := validateDag_valid h
  refine ⟨_, topologicalSort_eq_ok.mpr ⟨?_, rfl, hlen⟩⟩
  intro e he
  have hu := husable e he
  simp only [FlowEdge.usable, decide_eq_true_eq] at hu
  exact ⟨hu.1, hu.2.1⟩

theorem publishVersion_ok {registry : Registry} {schemaError : Json → JsonDict → Option String}
    {now : Time} {db db' : DefinitionDb} {definition : Nat} {randomSeed : Int} {v : FlowDefinitionVersion}
    (h : publishVersion registry schemaError now db definition nodes edges randomSeed = .ok (v, db')) :
    (validateDag nodes edges).valid = true ∧ v.nodes = nodes ∧ v.edges = edges := by
  simp only [publishVersion] at h
  split at h
  · cases h
  next hdag =>
    split at h
    · cases h
    · split at h
      · cases h
      · split at h
        · cases h
        · obtain ⟨rfl, rfl⟩ := Prod.mk.inj (Except.ok.inj h)
          exact ⟨by simpa using hdag, rfl, rfl⟩

theorem FlowDefinitionVersion.Published.sorted {v : FlowDefinitionVersion} (h : v.Published) :
    ∃ order, topologicalSort v.nodes v.edges = .ok order := by
  obtain ⟨_, _, _, _, _, _, _, _, _, hpublish⟩ := h
  obtain ⟨hvalid, hnodes, hedges⟩ := publishVersion_ok hpublish
  rw [hnodes, hedges]
  exact topologicalSort_of_validateDag hvalid

/-! ## Agreement -/

/-- Distinct ids, edges between nodes, and no path that leads back to where it started. -/
structure WellFormed (nodes : List FlowNode) (edges : List FlowEdge) : Prop where
  distinct : (nodes.map FlowNode.nodeId).Nodup
  ends : ∀ e ∈ edges, e.sourceNode ∈ nodes.map FlowNode.nodeId ∧ e.targetNode ∈ nodes.map FlowNode.nodeId
  acyclic : ∀ id, ¬ Upstream edges id id

/-- The order lists the nodes, each once, with the source of every edge before its target. -/
structure Schedules (nodes : List FlowNode) (edges : List FlowEdge) (order : List String) : Prop where
  perm : order.Perm (nodes.map FlowNode.nodeId)
  before : ∀ e ∈ edges, ∃ pre post, order = pre ++ e.targetNode :: post ∧ e.sourceNode ∈ pre

theorem upstream_iff_path {a b : String} : Upstream edges a b ↔ Kahn.Path (edges.map FlowEdge.pair) a b := by
  have hstep : (fun a b => ∃ e ∈ edges, e.sourceNode = a ∧ e.targetNode = b)
      = fun a b => (a, b) ∈ edges.map FlowEdge.pair := by
    funext a b
    simp [FlowEdge.pair]
  unfold Upstream Kahn.Path
  rw [hstep]

theorem duplicateErrors_eq_nil {ids : List String} : duplicateErrors ids = [] ↔ ids.Nodup := by
  unfold duplicateErrors occurrences
  rw [List.map_eq_nil_iff, List.filter_eq_nil_iff, List.nodup_iff_count_le_one]
  constructor
  · intro h id
    by_cases hid : id ∈ ids
    · have hle := h id (Kahn.mem_keys.mpr hid)
      simpa using hle
    · rw [List.count_eq_zero.mpr hid]
      omega
  · intro h id _
    simpa using h id

theorem ends_pair (h : ∀ e ∈ edges, e.sourceNode ∈ nodes.map FlowNode.nodeId ∧ e.targetNode ∈ nodes.map FlowNode.nodeId) :
    ∀ p ∈ edges.map FlowEdge.pair, p.1 ∈ nodes.map FlowNode.nodeId ∧ p.2 ∈ nodes.map FlowNode.nodeId := by
  intro p hp
  obtain ⟨e, he, rfl⟩ := List.mem_map.mp hp
  exact h e he

/-- **`validate_dag` accepts the well-formed graphs.** -/
theorem validateDag_valid_iff : (validateDag nodes edges).valid = true ↔ WellFormed nodes edges := by
  constructor
  · intro h
    obtain ⟨husable, hlen⟩ := validateDag_valid h
    have hnodup : (nodes.map FlowNode.nodeId).Nodup := by
      simp only [validateDag, ValidationResult.of, List.isEmpty_iff, List.append_eq_nil_iff] at h
      exact duplicateErrors_eq_nil.mp h.1.1
    have hends : ∀ e ∈ edges,
        e.sourceNode ∈ nodes.map FlowNode.nodeId ∧ e.targetNode ∈ nodes.map FlowNode.nodeId := by
      intro e he
      have hu := husable e he
      simp only [FlowEdge.usable, decide_eq_true_eq] at hu
      exact ⟨hu.1, hu.2.1⟩
    refine ⟨hnodup, hends, fun id hup => ?_⟩
    have hlen' : (Kahn.run (nodes.map FlowNode.nodeId) (edges.map FlowEdge.pair)).order.length
        = (nodes.map FlowNode.nodeId).length := hlen.trans (List.length_map _).symm
    exact (Kahn.length_order_iff (ends_pair hends) hnodup).mp hlen' id (upstream_iff_path.mp hup)
  · rintro ⟨hnodup, hends, hacyclic⟩
    -- an edge from a node to itself would be a cycle, so that every edge takes part in the sort
    have husable : ∀ e ∈ edges, e.usable (nodes.map FlowNode.nodeId) = true := by
      intro e he
      simp only [FlowEdge.usable, decide_eq_true_eq]
      refine ⟨(hends e he).1, (hends e he).2, fun hself => ?_⟩
      exact hacyclic e.sourceNode (Relation.TransGen.single ⟨e, he, rfl, hself.symm⟩)
    have hfilter : edges.filter (FlowEdge.usable (nodes.map FlowNode.nodeId)) = edges :=
      List.filter_eq_self.mpr husable
    have hkahn : Kahn.Acyclic (edges.map FlowEdge.pair) := fun id hpath => hacyclic id (upstream_iff_path.mpr hpath)
    have hlen : (Kahn.run (nodes.map FlowNode.nodeId) (edges.map FlowEdge.pair)).order.length = nodes.length :=
      ((Kahn.length_order_iff (ends_pair hends) hnodup).mpr hkahn).trans (List.length_map _)
    simp only [validateDag, ValidationResult.of, List.isEmpty_iff, List.append_eq_nil_iff,
      List.flatMap_eq_nil_iff, edgeErrors_eq_nil, hfilter, hlen, ne_eq, not_true, if_false]
    exact ⟨⟨duplicateErrors_eq_nil.mpr hnodup, husable⟩, trivial⟩

theorem schedules_of_topologicalSort {order : List String} (h : topologicalSort nodes edges = .ok order) :
    Schedules nodes edges order where
  perm := topologicalSort_perm h
  before e he := by
    have htarget := ((topologicalSort_eq_ok.mp h).1 e he).2
    obtain ⟨pre, post, hsplit⟩ := List.append_of_mem ((topologicalSort_perm h).mem_iff.mpr htarget)
    exact ⟨pre, post, hsplit, topologicalSort_before h hsplit he rfl⟩

/-- **Validation and ordering agree.** `validate_dag` accepts the well-formed graphs, and what it accepts
`topological_sort` puts in order. -/
theorem validation_agrees (nodes : List FlowNode) (edges : List FlowEdge) :
    ((validateDag nodes edges).valid = true ↔ WellFormed nodes edges) ∧
    ((validateDag nodes edges).valid = true →
      ∃ order, topologicalSort nodes edges = .ok order ∧ Schedules nodes edges order) := by
  refine ⟨validateDag_valid_iff, fun h => ?_⟩
  obtain ⟨order, horder⟩ := topologicalSort_of_validateDag h
  exact ⟨order, horder, schedules_of_topologicalSort horder⟩

end

end Irip.Flow
