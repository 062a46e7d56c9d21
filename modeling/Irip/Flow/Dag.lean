import Irip.Base.Kahn
import Irip.Flow.Entities

/-!
# `Flow.Dag` — the execution order and the resolution of bindings

`topological_sort` is Kahn's algorithm on the nodes and edges of a version. Filling the table of
successors raises `KeyError` for an edge that names an unknown node.
-/

namespace Irip.Flow

/-! ## Order -/

/-- The edge as a pair of node ids. -/
def FlowEdge.pair (e : FlowEdge) : String × String := (e.sourceNode, e.targetNode)

/-- The first end of an edge that is not a key of the tables, in the order the loop looks them up. -/
def unknownEnd (ids : List String) : List FlowEdge → Option String
  | [] => none
  | e :: es =>
    if e.sourceNode ∉ ids then some e.sourceNode
    else if e.targetNode ∉ ids then some e.targetNode
    else unknownEnd ids es

def topologicalSort (nodes : List FlowNode) (edges : List FlowEdge) : Except Exn (List String) :=
  let ids := nodes.map FlowNode.nodeId
  match unknownEnd ids edges with
  | some id => .error (.keyError id)
  | none =>
    let order := (Kahn.run ids (edges.map FlowEdge.pair)).order
    if order.length ≠ nodes.length then
      .error (.app { code := "validation_failed", message := "流程存在环，无法拓扑排序" })
    else .ok order

theorem unknownEnd_eq_none {ids : List String} {edges : List FlowEdge} :
    unknownEnd ids edges = none ↔ ∀ e ∈ edges, e.sourceNode ∈ ids ∧ e.targetNode ∈ ids := by
  induction edges with
  | nil => simp [unknownEnd]
  | cons e es ih =>
    unfold unknownEnd
    by_cases hs : e.sourceNode ∈ ids
    · by_cases ht : e.targetNode ∈ ids
      · simp [hs, ht, ih]
      · simp [hs, ht]
    · simp [hs]

/-- **What an order returned by `topological_sort` is.** -/
theorem topologicalSort_eq_ok {nodes : List FlowNode} {edges : List FlowEdge} {order : List String} :
    topologicalSort nodes edges = .ok order ↔
      (∀ e ∈ edges, e.sourceNode ∈ nodes.map FlowNode.nodeId ∧ e.targetNode ∈ nodes.map FlowNode.nodeId) ∧
      (Kahn.run (nodes.map FlowNode.nodeId) (edges.map FlowEdge.pair)).order = order ∧
      order.length = nodes.length := by
  simp only [topologicalSort]
  rw [← unknownEnd_eq_none]
  cases unknownEnd (nodes.map FlowNode.nodeId) edges with
  | some id => simp
  | none =>
    by_cases hlen : (Kahn.run (nodes.map FlowNode.nodeId) (edges.map FlowEdge.pair)).order.length
        = nodes.length
    · simp only [hlen, ne_eq, not_true, if_false, Except.ok.injEq, true_and]
      exact ⟨fun h => ⟨h, h ▸ hlen⟩, fun h => h.1⟩
    · simp only [hlen, ne_eq, not_false_eq_true, if_true, reduceCtorEq, false_iff, true_and]
      rintro ⟨rfl, h⟩
      exact hlen h

section

variable {nodes : List FlowNode} {edges : List FlowEdge} {order : List String}

theorem targets_of_topologicalSort (h : topologicalSort nodes edges = .ok order) :
    ∀ e ∈ edges.map FlowEdge.pair, e.2 ∈ nodes.map FlowNode.nodeId := by
  intro e he
  obtain ⟨f, hf, rfl⟩ := List.mem_map.mp he
  exact ((topologicalSort_eq_ok.mp h).1 f hf).2

theorem topologicalSort_nodup (h : topologicalSort nodes edges = .ok order) : order.Nodup := by
  obtain ⟨_, rfl, _⟩ := topologicalSort_eq_ok.mp h
  exact Kahn.nodup_order (targets_of_topologicalSort h)

theorem topologicalSort_perm (h : topologicalSort nodes edges = .ok order) :
    order.Perm (nodes.map FlowNode.nodeId) := by
  have htarget := targets_of_topologicalSort h
  obtain ⟨_, rfl, hlen⟩ := topologicalSort_eq_ok.mp h
  exact Kahn.perm_of_length htarget (hlen.trans (List.length_map _).symm)

theorem topologicalSort_before (h : topologicalSort nodes edges = .ok order) {pre post : List String}
    {id : String} (ho : order = pre ++ id :: post) {e : FlowEdge} (he : e ∈ edges)
    (ht : e.targetNode = id) : e.sourceNode ∈ pre := by
  have htarget := targets_of_topologicalSort h
  obtain ⟨_, hrun, _⟩ := topologicalSort_eq_ok.mp h
  have hpair : e.pair ∈ edges.map FlowEdge.pair := List.mem_map_of_mem he
  exact Kahn.before htarget (hrun.trans ho) hpair ht

/-- A path of edges leads from the first node to the second. -/
def Upstream (edges : List FlowEdge) : String → String → Prop :=
  Relation.TransGen (fun a b => ∃ e ∈ edges, e.sourceNode = a ∧ e.targetNode = b)

theorem topologicalSort_upstream (h : topologicalSort nodes edges = .ok order) {pre post : List String}
    {id src : String} (ho : order = pre ++ id :: post) (hup : Upstream edges src id) : src ∈ pre := by
  induction hup generalizing pre post with
  | single hedge =>
    obtain ⟨e, he, rfl, ht⟩ := hedge
    exact topologicalSort_before h ho he ht
  | @tail mid id _ hedge ih =>
    -- the last edge of the path ends in `id`; its source stands before `id`, the rest before its source
    obtain ⟨e, he, rfl, ht⟩ := hedge
    obtain ⟨pre', post', rfl⟩ := List.append_of_mem (topologicalSort_before h ho he ht)
    have hsplit : order = pre' ++ e.sourceNode :: (post' ++ id :: post) := by
      rw [ho]
      simp
    have hsrc : src ∈ pre' := ih hsplit
    exact List.mem_append_left _ hsrc

end

/-! ## Bindings -/

/-- `binding.split(":", 1)` of a binding that contains a colon, `none` for one that does not. -/
def splitBinding (binding : String) : Option (String × String) :=
  let cs := binding.toList
  if ':' ∈ cs then
    some (String.ofList (cs.takeWhile (· ≠ ':')), String.ofList ((cs.dropWhile (· ≠ ':')).drop 1))
  else none

/-- The value under a key, `None` when there is none. -/
def getOrNone (d : JsonDict) (key : String) : Json := d.getD key .null

def resolveInput (binding : String) (nodeOutputs : Dict String JsonDict) (inputSnapshot : JsonDict) :
    Json :=
  match splitBinding binding with
  | some (srcNode, srcPort) => getOrNone (nodeOutputs.getD srcNode ∅) srcPort
  | none => getOrNone inputSnapshot binding

/-- Only the first colon separates. -/
example : splitBinding "a:b:c" = some ("a", "b:c") := by decide

/-! ## Node map -/

/-- `node_map`: of two nodes with one id the later counts. -/
def nodeMapOf (nodes : List FlowNode) : Dict String FlowNode :=
  .ofList (nodes.map (fun n => (n.nodeId, n)))

theorem nodeMapOf_get? {nodes : List FlowNode} {id : String} {node : FlowNode}
    (h : (nodeMapOf nodes).get? id = some node) : node ∈ nodes ∧ node.nodeId = id := by
  obtain ⟨n, hn, heq⟩ := List.mem_map.mp (Dict.mem_of_get?_ofList h)
  obtain ⟨rfl, rfl⟩ := Prod.mk.inj heq
  exact ⟨hn, rfl⟩

theorem exists_nodeMapOf {nodes : List FlowNode} {id : String} (h : id ∈ nodes.map FlowNode.nodeId) :
    ∃ node, (nodeMapOf nodes).get? id = some node := by
  obtain ⟨node, hnode, rfl⟩ := List.mem_map.mp h
  rw [← Option.isSome_iff_exists, nodeMapOf, Dict.get?_ofList, Option.isSome_map, List.find?_isSome]
  exact ⟨(node.nodeId, node), List.mem_reverse.mpr (List.mem_map.mpr ⟨node, hnode, rfl⟩), decide_eq_true rfl⟩

end Irip.Flow
