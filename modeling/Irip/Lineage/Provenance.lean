import Irip.Base.Dict
import Irip.Base.Json
import Irip.Base.Search

/-!
# `Lineage.Provenance` — the provenance query

The graph above a node is put together from two tables of edges and cut down to what the caller may see. A namespace is
a text, since the tables hold texts, and a node is named by its namespace and its id.
-/

namespace Irip.Lineage

abbrev NodeId := Nat

/-- A node by its namespace and its id. -/
abbrev Key := String × NodeId

/-! ## Rows and answers -/

/-- A row of `research_lineage_edge`, or of `provenance_edge`. -/
structure LineageEdge where
  sourceNamespace : String
  sourceId : NodeId
  sourceVersion : Option Nat := none
  targetNamespace : String
  targetId : NodeId
  targetVersion : Option Nat := none
  edgeType : String

def LineageEdge.target (e : LineageEdge) : Key := (e.targetNamespace, e.targetId)

def LineageEdge.source (e : LineageEdge) : Key := (e.sourceNamespace, e.sourceId)

/-- A `ProvenanceEdge` is the row with its label. -/
structure ProvenanceEdge extends LineageEdge where
  edgeTypeLabel : String

/-- A `ProvenanceNode`, without the label it is displayed with. -/
structure ProvenanceNode where
  ns : String
  nodeId : NodeId
  version : Option Nat
  nodeType : String
  attributes : List (String × Json)
  isRestricted : Bool := false

def ProvenanceNode.key (n : ProvenanceNode) : Key := (n.ns, n.nodeId)

/-- What the SELECT for a node answers. -/
structure NodeRow where
  version : Option Nat := none
  attributes : List (String × Json) := []

/-- What the sessions of the adapters answer: the edges they see, the rows, and the permission checks. -/
structure Store where
  lineageEdges : List LineageEdge := []
  provenanceEdges : List LineageEdge := []
  row : Key → Option NodeRow
  permits : Key → Bool

/-! ## The adapters -/

/-- The kinds of nodes the core adapter knows, by namespace. -/
def coreNodeType : String → Option String
  | "core:fact" => some "fact"
  | "core:derivation_run" => some "derivation_run"
  | "core:evidence_set" => some "evidence_set"
  | _ => none

/-- The routing of the research adapter. -/
def researchNodeType : String → Option String
  | "research:evidence_snapshot" => some "evidence_snapshot"
  | "research:analysis_run" => some "analysis_run"
  | "research:analysis_step" => some "analysis_step"
  | "research:derived_dataset" => some "derived_dataset"
  | "research:derived_dataset_version" => some "derived_dataset_version"
  | "research:dataset_version" => some "dataset_version"
  | "research:view" => some "view"
  | "research:view_version" => some "view_version"
  | "research:insight" => some "insight"
  | "research:insight_version" => some "insight_version"
  | "research:result_version" => some "result_version"
  | "research:workspace" => some "workspace"
  | "research:knowledge_reference" => some "knowledge_reference"
  | _ => none

/-- `_EDGE_TYPE_LABELS` of the core adapter. -/
def coreEdgeTypeLabel : String → String
  | "fact_to_evidence_set" => "事实→证据集"
  | "evidence_set_to_derivation_run" => "证据集→推导"
  | "fact_to_derivation_run" => "事实→推导"
  | edgeType => edgeType

/-- `_EDGE_TYPE_LABELS` of the research adapter. -/
def researchEdgeTypeLabel : String → String
  | "workspace_to_result" => "空间→成果"
  | "dataset_to_result" => "数据集→成果"
  | "view_to_result" => "图表→成果"
  | "insight_to_result" => "Insight→成果"
  | "fact_to_snapshot" => "事实→快照"
  | "published_derived_to_snapshot" => "已发布数据→快照"
  | "snapshot_to_run" => "快照→运行"
  | "run_to_step" => "运行→步骤"
  | "run_to_dataset" => "运行→数据集"
  | "run_to_view" => "运行→图表"
  | "run_to_insight" => "运行→Insight"
  | "knowledge_ref_to_insight" => "知识引用→Insight"
  | edgeType => edgeType

/-- `_route_adapter`: the namespace belongs to the core adapter. -/
def routesToCore (ns : String) : Bool := "core:".toList.isPrefixOf ns.toList

namespace Store

variable (s : Store)

/-- The kind of a node, by the adapter its namespace is routed to. -/
def nodeType (ns : String) : Option String := if routesToCore ns then coreNodeType ns else researchNodeType ns

/-- `query_node` of the two adapters. -/
def queryNode (k : Key) : Option ProvenanceNode :=
  (nodeType k.1).bind (fun type => (s.row k).map (fun row =>
    { ns := k.1, nodeId := k.2, version := row.version, nodeType := type, attributes := row.attributes }))

/-- `query_incoming_edges` of the two adapters. -/
def queryIncomingEdges (k : Key) : List ProvenanceEdge :=
  if routesToCore k.1 then
    -- a fact is where the provenance begins
    if k.1 = "core:derivation_run" ∨ k.1 = "core:evidence_set" then
      (s.provenanceEdges.filter (fun e => e.target == k)).map (fun e =>
        { e with edgeTypeLabel := coreEdgeTypeLabel e.edgeType })
    else []
  else (s.lineageEdges.filter (fun e => e.target == k)).map (fun e =>
    { e with edgeTypeLabel := researchEdgeTypeLabel e.edgeType })

/-- `check_permission` of the two adapters. A check that raises answers no. -/
def checkPermission (k : Key) : Bool :=
  if routesToCore k.1 then (coreNodeType k.1).isSome && s.permits k
  else (researchNodeType k.1).isNone || s.permits k

end Store

/-! ## The service -/

/-- The variables of `_bfs_traverse`. -/
structure Traversal where
  nodes : List ProvenanceNode := []
  edges : List ProvenanceEdge := []
  nodeKeys : List Key := []
  truncatedCount : Nat := 0
  queue : List (Key × Nat)

/-- The body of the loop over the incoming edges of a node at `depth`. -/
def enqueue (maxDepth depth : Nat) (st : Traversal) (e : ProvenanceEdge) : Traversal :=
  if e.source ∈ st.nodeKeys then st
  else if depth + 1 > maxDepth then { st with truncatedCount := st.truncatedCount + 1 }
  else { st with queue := st.queue ++ [(e.source, depth + 1)] }

/-- The loop of `_bfs_traverse`, over as many entries of the queue. -/
def bfsLoop (s : Store) (maxDepth : Nat) : Nat → Traversal → Traversal
  | 0, st => st
  | fuel + 1, st =>
    match st.queue with
    | [] => st
    | (key, depth) :: queue =>
      if key ∈ st.nodeKeys then bfsLoop s maxDepth fuel { st with queue := queue }
      else
        match s.queryNode key with
        | none => bfsLoop s maxDepth fuel { st with queue := queue, nodeKeys := st.nodeKeys ++ [key] }
        | some node =>
          let incoming := s.queryIncomingEdges key
          bfsLoop s maxDepth fuel (incoming.foldl (enqueue maxDepth depth)
            { st with queue := queue, nodeKeys := st.nodeKeys ++ [key], nodes := st.nodes ++ [node],
                      edges := st.edges ++ incoming })

/-- The edges a traversal can meet. -/
def Store.edges (s : Store) : List LineageEdge := s.lineageEdges ++ s.provenanceEdges

/-- `_bfs_traverse`. Each entry of the queue but the first is of an edge, and no edge is met twice. -/
def bfsTraverse (s : Store) (target : Key) (maxDepth : Nat) : Traversal :=
  bfsLoop s maxDepth ((s.edges.map LineageEdge.target).length + 1) { queue := [(target, 0)] }

/-- The nodes directly above a node along some edges. -/
def sourcesAlong (edges : List ProvenanceEdge) (k : Key) : List Key :=
  (edges.filter (fun e => e.target == k)).map (fun e => e.source)

/-- The keys `_prune_permissions` removes: the restricted ones, and with `truncate_branch` all above them. -/
def toRemove (edges : List ProvenanceEdge) (truncateBranch : Bool) (restrictedKeys : List Key) : List Key :=
  if truncateBranch then
    Search.closure (sourcesAlong edges) (restrictedKeys.length + (edges.map (fun e => e.source)).length)
      restrictedKeys restrictedKeys
  else restrictedKeys

/-- The placeholder at a position of the list. -/
def restrictedNode (uuid5 : String → NodeId) (i : Nat) : ProvenanceNode :=
  { ns := "restricted", nodeId := uuid5 ("restricted_" ++ toString i), version := none,
    nodeType := "restricted", attributes := [("temp_id", .str ("restricted_" ++ toString i))], isRestricted := true }

/-- `_prune_permissions`. No two nodes of a traversal have a key in common, so the index a restricted key is given
is that of its node. -/
def prunePermissions (uuid5 : String → NodeId) (s : Store) (nodes : List ProvenanceNode)
    (edges : List ProvenanceEdge) (truncateBranch : Bool) : List ProvenanceNode × List ProvenanceEdge :=
  let restrictedKeys := (nodes.filter (fun n => !s.checkPermission n.key)).map ProvenanceNode.key
  if restrictedKeys.isEmpty then (nodes, edges)
  else
    let removed := toRemove edges truncateBranch restrictedKeys
    (nodes.mapIdx (fun i n => if n.key ∈ removed then restrictedNode uuid5 i else n),
     edges.filter (fun e => decide (e.source ∉ removed ∧ e.target ∉ removed)))

/-- `ProvenanceQueryOptions`. -/
structure QueryOptions where
  maxDepth : Int := 20
  truncateBranch : Bool := false

/-- The depth a query is answered with. -/
def QueryOptions.depth (opts : QueryOptions) : Nat := if opts.maxDepth > 0 then opts.maxDepth.toNat else 20

/-- `ProvenanceGraphStats`. -/
structure GraphStats where
  totalNodes : Nat
  nodesByType : Dict String Nat
  restrictedNodesCount : Nat
  truncatedCount : Nat

def computeStats (nodes : List ProvenanceNode) (truncatedCount : Nat) : GraphStats :=
  { totalNodes := nodes.length,
    nodesByType := nodes.foldl (fun counts n => counts.set n.nodeType ((counts.get? n.nodeType).getD 0 + 1)) ∅,
    restrictedNodesCount := (nodes.filter ProvenanceNode.isRestricted).length,
    truncatedCount := truncatedCount }

structure ProvenanceGraph where
  nodes : List ProvenanceNode
  edges : List ProvenanceEdge
  stats : GraphStats

def queryProvenanceGraph (uuid5 : String → NodeId) (s : Store) (target : Key) (opts : QueryOptions) :
    ProvenanceGraph :=
  let st := bfsTraverse s target opts.depth
  let (nodes, edges) := prunePermissions uuid5 s st.nodes st.edges opts.truncateBranch
  { nodes := nodes, edges := edges, stats := computeStats nodes st.truncatedCount }

/-! ## The traversal -/

/-- The nodes directly above a node, if that is present. -/
def Store.sources (s : Store) (k : Key) : List Key :=
  if (s.queryNode k).isSome then (s.queryIncomingEdges k).map (fun e => e.source) else []

/-- The edges into a node, if that is present. -/
def Store.presentEdges (s : Store) (k : Key) : List ProvenanceEdge :=
  if (s.queryNode k).isSome then s.queryIncomingEdges k else []

section Traversal

variable {s : Store} {maxDepth : Nat} {k : Key}

theorem queryNode_key {n : ProvenanceNode} (h : s.queryNode k = some n) : n.key = k ∧ n.isRestricted = false := by
  obtain ⟨type, -, h⟩ := Option.bind_eq_some_iff.mp h
  obtain ⟨row, -, rfl⟩ := Option.map_eq_some_iff.mp h
  exact ⟨rfl, rfl⟩

theorem queryIncomingEdges_spec (s : Store) (k : Key) :
    ∃ rows, (rows = s.lineageEdges ∨ rows = s.provenanceEdges ∨ rows = []) ∧
      (s.queryIncomingEdges k).map (fun e => e.toLineageEdge) = rows.filter (fun e => e.target == k) := by
  have hmap : ∀ (rows : List LineageEdge) (label : LineageEdge → String),
      ((rows.filter (fun e => e.target == k)).map (fun e => ({ e with edgeTypeLabel := label e } : ProvenanceEdge))).map
        (fun e => e.toLineageEdge) = rows.filter (fun e => e.target == k) := by
    intro rows label
    rw [List.map_map]
    exact List.map_id _
  unfold Store.queryIncomingEdges
  split
  · split
    · exact ⟨s.provenanceEdges, .inr (.inl rfl), hmap s.provenanceEdges _⟩
    · exact ⟨[], .inr (.inr rfl), rfl⟩
  · exact ⟨s.lineageEdges, .inl rfl, hmap s.lineageEdges _⟩

theorem target_of_incoming {e : ProvenanceEdge} (he : e ∈ s.queryIncomingEdges k) : e.target = k := by
  obtain ⟨rows, -, hrows⟩ := queryIncomingEdges_spec s k
  have hmem : e.toLineageEdge ∈ rows.filter (fun e => e.target == k) := hrows ▸ List.mem_map_of_mem he
  exact eq_of_beq (List.mem_filter.mp hmem).2

theorem covers_sources (s : Store) : Search.Covers s.sources (s.edges.map LineageEdge.target) := by
  intro k
  obtain ⟨rows, hwhich, hrows⟩ := queryIncomingEdges_spec s k
  have hlength := congrArg List.length hrows
  rw [List.length_map] at hlength
  have hcount : ∀ es : List LineageEdge,
      (es.filter (fun e => e.target == k)).length = (es.map LineageEdge.target).countP (fun j => j = k) := by
    intro es
    rw [List.countP_map, List.countP_eq_length_filter]
    refine congrArg List.length (List.filter_congr (fun e _ => ?_))
    simp [beq_eq_decide]
  have hle : (s.queryIncomingEdges k).length ≤ (s.edges.map LineageEdge.target).countP (fun j => j = k) := by
    rw [hlength, hcount, Store.edges, List.map_append, List.countP_append]
    rcases hwhich with rfl | rfl | rfl
    · exact Nat.le_add_right _ _
    · exact Nat.le_add_left _ _
    · exact Nat.zero_le _
  unfold Store.sources
  split
  · rw [List.length_map]
    exact hle
  · exact Nat.zero_le _

theorem enqueue_fold (es : List ProvenanceEdge) (maxDepth depth : Nat) (st : Traversal) (k : Key) :
    ∃ count, es.foldl (enqueue maxDepth depth) st = { st with
      truncatedCount := count,
      queue := st.queue ++
        Search.expand (fun _ => es.map (fun e => e.source)) maxDepth k depth st.nodeKeys } := by
  unfold Search.expand
  induction es generalizing st with
  | nil => exact ⟨st.truncatedCount, by simp⟩
  | cons e es ih =>
    rw [List.foldl_cons]
    obtain ⟨count, hfold⟩ := ih (enqueue maxDepth depth st e)
    refine ⟨count, hfold.trans ?_⟩
    unfold enqueue
    split
    · next hseen => simp [hseen]
    · next hseen =>
        by_cases hdepth : depth + 1 ≤ maxDepth
        · simp [hseen, hdepth, Nat.not_lt.mpr hdepth]
        · simp [hdepth, Nat.lt_of_not_le hdepth]

/-- What the variables of the loop hold. -/
structure Traversal.Of (s : Store) (st : Traversal) : Prop where
  nodes : st.nodes = st.nodeKeys.filterMap s.queryNode
  edges : st.edges = st.nodeKeys.flatMap s.presentEdges

theorem bfsLoop_spec (fuel : Nat) {st : Traversal} (hst : st.Of s) :
    (bfsLoop s maxDepth fuel st).Of s ∧
      (bfsLoop s maxDepth fuel st).nodeKeys = Search.bfs s.sources maxDepth fuel st.queue st.nodeKeys := by
  induction fuel generalizing st with
  | zero => exact ⟨hst, rfl⟩
  | succ fuel ih =>
    cases hqueue : st.queue with
    | nil => simpa [bfsLoop, hqueue, Search.bfs] using hst
    | cons entry queue =>
      obtain ⟨key, depth⟩ := entry
      simp only [bfsLoop, hqueue, Search.bfs]
      split
      · exact ih ⟨hst.nodes, hst.edges⟩
      · next hnew =>
          cases hnode : s.queryNode key with
          | none =>
            have hexpand : Search.expand s.sources maxDepth key depth (st.nodeKeys ++ [key]) = [] := by
              simp [Search.expand, Store.sources, hnode]
            rw [hexpand, List.append_nil]
            refine ih ⟨?_, ?_⟩
            · simp [hst.nodes, hnode]
            · simp [hst.edges, Store.presentEdges, hnode]
          | some node =>
            obtain ⟨count, hfold⟩ := enqueue_fold (s.queryIncomingEdges key) maxDepth depth
              { st with queue := queue, nodeKeys := st.nodeKeys ++ [key], nodes := st.nodes ++ [node],
                        edges := st.edges ++ s.queryIncomingEdges key } key
            have hexpand : Search.expand (fun _ => (s.queryIncomingEdges key).map (fun e => e.source)) maxDepth
                key depth (st.nodeKeys ++ [key])
                  = Search.expand s.sources maxDepth key depth (st.nodeKeys ++ [key]) := by
              simp [Search.expand, Store.sources, hnode]
            simp only [hfold, hexpand]
            refine ih ⟨?_, ?_⟩
            · simp [hst.nodes, hnode]
            · simp [hst.edges, Store.presentEdges, hnode]

/-- **The traversal.** Its nodes are the present ones among the keys that lie within the depth, and its edges are those
into them. -/
theorem bfsTraverse_spec (s : Store) (target : Key) (maxDepth : Nat) :
    ∃ keys : List Key, (∀ k, k ∈ keys ↔ ∃ n ≤ maxDepth, Search.Reaches s.sources target n k) ∧
      (bfsTraverse s target maxDepth).nodes = keys.filterMap s.queryNode ∧
      (bfsTraverse s target maxDepth).edges = keys.flatMap s.presentEdges := by
  have hspec : (bfsTraverse s target maxDepth).Of s ∧ (bfsTraverse s target maxDepth).nodeKeys = _ :=
    bfsLoop_spec _ ⟨rfl, rfl⟩
  obtain ⟨hof, hkeys⟩ := hspec
  refine ⟨(bfsTraverse s target maxDepth).nodeKeys, fun k => ?_, hof.nodes, hof.edges⟩
  rw [hkeys]
  exact Search.mem_bfs_iff (covers_sources s) k

end Traversal

end Irip.Lineage
