import Irip.Base.Levels
import Irip.Lineage.Provenance

/-!
# `Lineage.Traversal` — what the traversal reports as cut off

The nodes and the edges of `_bfs_traverse` are those within the depth. Its counter of truncated branches is raised when a
source is discovered beyond the depth and has not been visited by then, but a source of a node in the last level may be
waiting in the queue, in the same level, at that moment.
-/

namespace Irip.Lineage

section Truncated

variable {s : Store} {maxDepth : Nat}

/-! ## The counter -/

theorem enqueue_fold_truncated (es : List ProvenanceEdge) (depth : Nat) (st : Traversal) :
    (es.foldl (enqueue maxDepth depth) st).truncatedCount = st.truncatedCount +
      if depth + 1 > maxDepth then ((es.map (fun e => e.source)).filter (fun j => j ∉ st.nodeKeys)).length else 0 := by
  induction es generalizing st with
  | nil => simp
  | cons e es ih =>
    have hkeys : (enqueue maxDepth depth st e).nodeKeys = st.nodeKeys := by
      unfold enqueue
      split
      · rfl
      · split
        · rfl
        · rfl
    have hcount : (enqueue maxDepth depth st e).truncatedCount
        = st.truncatedCount + if depth + 1 > maxDepth ∧ e.source ∉ st.nodeKeys then 1 else 0 := by
      unfold enqueue
      split
      · next hseen => rw [if_neg (fun h => h.2 hseen), Nat.add_zero]
      · next hseen =>
          split
          · next hdepth => rw [if_pos ⟨hdepth, hseen⟩]
          · next hdepth =>
              rw [if_neg (fun h => hdepth h.1)]
              rfl
    rw [List.foldl_cons, ih, hkeys, hcount, List.map_cons]
    by_cases hdepth : depth + 1 > maxDepth
    · by_cases hseen : e.source ∈ st.nodeKeys
      · simp [hdepth, hseen]
      · simp [hdepth, hseen]
        omega
    · simp [hdepth]

theorem bfsLoop_truncated (fuel : Nat) (st : Traversal) :
    (bfsLoop s maxDepth fuel st).truncatedCount = st.truncatedCount +
      Search.cut s.sources maxDepth (Search.visits s.sources maxDepth fuel st.queue st.nodeKeys) st.nodeKeys := by
  induction fuel generalizing st with
  | zero => rfl
  | succ fuel ih =>
    cases hqueue : st.queue with
    | nil => simp [bfsLoop, hqueue, Search.visits, Search.cut]
    | cons entry queue =>
      obtain ⟨key, depth⟩ := entry
      simp only [bfsLoop, hqueue, Search.visits]
      split
      · exact ih _
      · cases hnode : s.queryNode key with
        | none =>
          -- a missing node has no sources
          have hsources : s.sources key = [] := by simp [Store.sources, hnode]
          have hexpand : Search.expand s.sources maxDepth key depth (st.nodeKeys ++ [key]) = [] := by
            simp [Search.expand, hsources]
          simp only [ih, Search.cut, hsources, hexpand, List.append_nil, List.filter_nil, List.length_nil,
            ite_self, Nat.zero_add]
        | some node =>
          have hsources : s.sources key = (s.queryIncomingEdges key).map (fun e => e.source) := by
            simp [Store.sources, hnode]
          have hcount := @enqueue_fold_truncated maxDepth (s.queryIncomingEdges key) depth
            { st with queue := queue, nodeKeys := st.nodeKeys ++ [key], nodes := st.nodes ++ [node],
                      edges := st.edges ++ s.queryIncomingEdges key }
          obtain ⟨count, hfold⟩ := enqueue_fold (s.queryIncomingEdges key) maxDepth depth
            { st with queue := queue, nodeKeys := st.nodeKeys ++ [key], nodes := st.nodes ++ [node],
                      edges := st.edges ++ s.queryIncomingEdges key } key
          have hexpand : Search.expand (fun _ => (s.queryIncomingEdges key).map (fun e => e.source)) maxDepth
              key depth (st.nodeKeys ++ [key])
                = Search.expand s.sources maxDepth key depth (st.nodeKeys ++ [key]) := by
            simp [Search.expand, hsources]
          rw [hfold] at hcount
          simp only [hfold, hexpand, ih, Search.cut, hsources]
          simp only at hcount
          rw [hcount, Nat.add_assoc]
          congr!

theorem bfsTraverse_levels (s : Store) (target : Key) (maxDepth : Nat) :
    (bfsTraverse s target maxDepth).nodes
        = (Search.above s.sources target (maxDepth + 1)).filterMap s.queryNode ∧
    (bfsTraverse s target maxDepth).edges
        = (Search.above s.sources target (maxDepth + 1)).flatMap s.presentEdges ∧
    (bfsTraverse s target maxDepth).truncatedCount
        = Search.cut s.sources maxDepth (Search.levels s.sources target 0 (maxDepth + 1)) [] := by
  have hvisits := Search.visits_eq (covers_sources s) maxDepth target
  have hspec : (bfsTraverse s target maxDepth).Of s ∧ (bfsTraverse s target maxDepth).nodeKeys = _ :=
    bfsLoop_spec _ ⟨rfl, rfl⟩
  obtain ⟨hof, hkeys⟩ := hspec
  rw [Search.bfs_eq_visits, hvisits, (Search.levels_append s.sources target (maxDepth + 1) 0).1] at hkeys
  refine ⟨?_, ?_, ?_⟩
  · rw [hof.nodes, hkeys]
    rfl
  · rw [hof.edges, hkeys]
    rfl
  · unfold bfsTraverse
    rw [bfsLoop_truncated]
    show 0 + Search.cut s.sources maxDepth
      (Search.visits s.sources maxDepth ((s.edges.map LineageEdge.target).length + 1) [(target, 0)] []) [] = _
    rw [hvisits, Nat.zero_add]

/-! ## Exactness -/

/-- A key lies within the depth: so many steps lead to it, each from an existing node to the source of an edge into
it. -/
def Within (s : Store) (target : Key) (maxDepth : Nat) (k : Key) : Prop :=
  ∃ n ≤ maxDepth, Search.Reaches s.sources target n k

/-- The answer of a traversal is exact: the existing nodes within the depth once each, the edges into them, and a count of
nothing exactly when the depth leaves no source of these edges out. -/
structure Exact (s : Store) (target : Key) (maxDepth : Nat) (answer : Traversal) : Prop where
  once : (answer.nodes.map ProvenanceNode.key).Nodup
  nodes : ∀ node, node ∈ answer.nodes ↔ ∃ k, Within s target maxDepth k ∧ s.queryNode k = some node
  edges : answer.edges = answer.nodes.flatMap (fun node => s.queryIncomingEdges node.key)
  truncated : answer.truncatedCount = 0 ↔ ∀ e ∈ answer.edges, Within s target maxDepth e.source

/-- Some node at the last depth has a source beyond it. -/
def Beyond (s : Store) (target : Key) (maxDepth : Nat) : Prop :=
  ∃ k ∈ Search.level s.sources target maxDepth, ∃ j ∈ s.sources k, ¬ Within s target maxDepth j

/-- No node at the last depth has a source that is discovered after it at the same depth. -/
def SourcesFirst (s : Store) (target : Key) (maxDepth : Nat) : Prop :=
  ∀ l k r, Search.level s.sources target maxDepth = l ++ k :: r → ∀ j ∈ s.sources k, j ∉ r

theorem within_iff {target : Key} {k : Key} :
    Within s target maxDepth k ↔
      k ∈ Search.above s.sources target maxDepth ∨ k ∈ Search.level s.sources target maxDepth := by
  rw [← List.mem_append, ← Search.above_succ, Search.mem_above_iff]
  exact exists_congr (fun n => and_congr_left' Nat.lt_succ_iff.symm)

theorem within_of_above {target j k : Key} (hk : k ∈ Search.above s.sources target maxDepth) (hj : j ∈ s.sources k) :
    Within s target maxDepth j := by
  obtain ⟨m, hm, hreach⟩ := Search.mem_above_iff.mp hk
  exact ⟨m + 1, hm, .step hreach hj⟩

theorem not_beyond_iff {target : Key} :
    ¬ Beyond s target maxDepth ↔
      ∀ e ∈ (bfsTraverse s target maxDepth).edges, Within s target maxDepth e.source := by
  rw [(bfsTraverse_levels s target maxDepth).2.1, Search.above_succ]
  have hmem : ∀ k, (∃ e ∈ s.presentEdges k, ¬ Within s target maxDepth e.source) ↔
      ∃ j ∈ s.sources k, ¬ Within s target maxDepth j := by
    intro k
    unfold Store.presentEdges Store.sources
    split
    · simp
    · simp
  rw [← not_iff_not, not_not]
  push Not
  constructor
  · rintro ⟨k, hk, hout⟩
    obtain ⟨e, he, hout⟩ := (hmem k).mpr hout
    exact ⟨e, List.mem_flatMap.mpr ⟨k, List.mem_append_right _ hk, he⟩, hout⟩
  · rintro ⟨e, he, hout⟩
    obtain ⟨k, hk, he⟩ := List.mem_flatMap.mp he
    obtain ⟨j, hj, hout⟩ := (hmem k).mp ⟨e, he, hout⟩
    rcases List.mem_append.mp hk with hk | hk
    · exact absurd (within_of_above hk hj) hout
    · exact ⟨k, hk, j, hj, hout⟩

theorem queried_key {keys : List Key} : (keys.filterMap s.queryNode).map ProvenanceNode.key
    = keys.filter (fun k => (s.queryNode k).isSome) := by
  induction keys with
  | nil => rfl
  | cons k keys ih =>
    cases hnode : s.queryNode k with
    | none => simpa [hnode] using ih
    | some node => simpa [hnode, (queryNode_key hnode).1] using ih

theorem traversal_lists (s : Store) (target : Key) (maxDepth : Nat) :
    ((bfsTraverse s target maxDepth).nodes.map ProvenanceNode.key).Nodup ∧
    (∀ node, node ∈ (bfsTraverse s target maxDepth).nodes ↔
      ∃ k, Within s target maxDepth k ∧ s.queryNode k = some node) ∧
    (bfsTraverse s target maxDepth).edges
      = (bfsTraverse s target maxDepth).nodes.flatMap (fun node => s.queryIncomingEdges node.key) := by
  obtain ⟨hnodes, hedges, -⟩ := bfsTraverse_levels s target maxDepth
  refine ⟨?_, fun node => ?_, ?_⟩
  · rw [hnodes, queried_key]
    exact (Search.nodup_above s.sources target (maxDepth + 1)).1.filter _
  · rw [hnodes, List.mem_filterMap]
    refine exists_congr (fun k => and_congr_left' ?_)
    rw [within_iff, Search.above_succ, List.mem_append]
  · rw [hedges, hnodes]
    generalize Search.above s.sources target (maxDepth + 1) = keys
    induction keys with
    | nil => rfl
    | cons k keys ih =>
      cases hnode : s.queryNode k with
      | none => simpa [Store.presentEdges, hnode] using ih
      | some node => simpa [Store.presentEdges, hnode, (queryNode_key hnode).1] using ih

/-- Nothing is counted exactly when every source of a node at the last depth comes above it, before it, or is it. -/
theorem sourcesFirst_iff {target : Key} (hnone : ¬ Beyond s target maxDepth) :
    (bfsTraverse s target maxDepth).truncatedCount = 0 ↔ SourcesFirst s target maxDepth := by
  rw [(bfsTraverse_levels s target maxDepth).2.2, Search.cut_levels_eq_zero_iff]
  refine forall_congr' (fun l => forall_congr' (fun k => forall_congr' (fun r => forall_congr' (fun hlevel =>
    forall_congr' (fun j => forall_congr' (fun hj => ?_))))))
  have hnodup := (Search.nodup_above s.sources target maxDepth).2
  have hk : k ∈ Search.level s.sources target maxDepth := by
    rw [hlevel]
    exact List.mem_append_right _ List.mem_cons_self
  have hwithin : Within s target maxDepth j := by
    by_contra hout
    exact hnone ⟨k, hk, j, hj, hout⟩
  constructor
  · intro hbefore hr
    have hjlevel : j ∈ Search.level s.sources target maxDepth := by
      rw [hlevel]
      exact List.mem_append_right _ (List.mem_cons_of_mem _ hr)
    rcases hbefore with habove | hl | rfl
    · obtain ⟨m, hm, hreach⟩ := Search.mem_above_iff.mp habove
      exact (Search.mem_level_iff.mp hjlevel).2 m hm hreach
    · rw [hlevel] at hnodup
      exact (List.nodup_append.mp hnodup).2.2 j hl j (List.mem_cons_of_mem _ hr) rfl
    · rw [hlevel] at hnodup
      exact (List.nodup_cons.mp (List.nodup_append.mp hnodup).2.1).1 hr
  · intro hr
    rcases within_iff.mp hwithin with habove | hmem
    · exact .inl habove
    · rw [hlevel, List.mem_append, List.mem_cons] at hmem
      grind

/-- **When a traversal is exact**: when something does lie beyond its depth, or no node at the last depth has a source
that is discovered after it at the same depth. -/
theorem traversal_exact_iff (s : Store) (target : Key) (maxDepth : Nat) :
    Exact s target maxDepth (bfsTraverse s target maxDepth) ↔
      Beyond s target maxDepth ∨ SourcesFirst s target maxDepth := by
  obtain ⟨honce, hnodes, hedges⟩ := traversal_lists s target maxDepth
  have hexact : Exact s target maxDepth (bfsTraverse s target maxDepth) ↔
      ((bfsTraverse s target maxDepth).truncatedCount = 0 ↔ ¬ Beyond s target maxDepth) := by
    rw [not_beyond_iff]
    exact ⟨fun h => h.truncated, fun h => ⟨honce, hnodes, hedges, h⟩⟩
  rw [hexact]
  by_cases hbeyond : Beyond s target maxDepth
  · refine iff_of_true ⟨fun hzero => ?_, fun hnot => absurd hbeyond hnot⟩ (.inl hbeyond)
    -- a source beyond the depth is not visited, so it was counted
    rw [(bfsTraverse_levels s target maxDepth).2.2, Search.cut_levels_eq_zero_iff] at hzero
    obtain ⟨k, hk, j, hj, hout⟩ := hbeyond
    obtain ⟨l, r, hlevel⟩ := List.append_of_mem hk
    rcases hzero l k r hlevel j hj with habove | hl | rfl
    · exact absurd (within_iff.mpr (.inl habove)) hout
    · exact absurd (within_iff.mpr (.inr (by rw [hlevel]; exact List.mem_append_left _ hl))) hout
    · exact absurd (within_iff.mpr (.inr hk)) hout
  · rw [sourcesFirst_iff hbeyond]
    simp [hbeyond]

/-- An insight from two views, the first of which is made from the second: all three lie within the depth of one. -/
def twoViews : Store where
  lineageEdges :=
    [{ sourceNamespace := "research:view", sourceId := 1, targetNamespace := "research:insight", targetId := 0,
       edgeType := "view_to_result" },
     { sourceNamespace := "research:view", sourceId := 2, targetNamespace := "research:insight", targetId := 0,
       edgeType := "view_to_result" },
     { sourceNamespace := "research:view", sourceId := 2, targetNamespace := "research:view", targetId := 1,
       edgeType := "view_to_result" }]
  row _ := some {}
  permits _ := true

/-- The second view waits in the queue when it is discovered from the first one, and is counted as cut off. -/
theorem waiting_source_counted :
    ¬ ∀ (s : Store) (target : Key) (maxDepth : Nat), Exact s target maxDepth (bfsTraverse s target maxDepth) := by
  intro hall
  have htruncated := (hall twoViews ("research:insight", 0) 1).truncated
  have hcount : (bfsTraverse twoViews ("research:insight", 0) 1).truncatedCount = 1 := by decide +kernel
  have hsources : (bfsTraverse twoViews ("research:insight", 0) 1).edges.map (fun e => e.source)
      = [("research:view", 1), ("research:view", 2), ("research:view", 2)] := by decide +kernel
  have hinsight : twoViews.sources ("research:insight", 0) = [("research:view", 1), ("research:view", 2)] := by
    decide +kernel
  rw [hcount] at htruncated
  refine absurd (htruncated.mpr (fun e he => ?_)) Nat.one_ne_zero
  have hsource : e.source ∈ twoViews.sources ("research:insight", 0) := by
    have hmem := List.mem_map_of_mem (f := fun e : ProvenanceEdge => e.source) he
    rw [hsources] at hmem
    rw [hinsight]
    simpa using hmem
  exact ⟨1, Nat.le_refl 1, .step .start hsource⟩

end Truncated

end Irip.Lineage
