import Irip.Lineage.Provenance

/-!
# `Lineage.Sealed` — what a provenance graph gives away

Permissions are checked for the nodes that were loaded, and every edge into a loaded node is collected. An edge may so
name a source that was never loaded: one beyond the depth, or one the row policies hide.
-/

namespace Irip.Lineage

/-! ## Sealed graphs -/

/-- The graph has an open node for the key. -/
def ProvenanceGraph.Shows (g : ProvenanceGraph) (k : Key) : Prop := ∃ n ∈ g.nodes, n.key = k ∧ n.isRestricted = false

/-- Both ends of each edge are open nodes of the graph, and the caller may access each open node. -/
structure Sealed (s : Store) (g : ProvenanceGraph) : Prop where
  sources : ∀ e ∈ g.edges, g.Shows e.source
  targets : ∀ e ∈ g.edges, g.Shows e.target
  permits : ∀ k, g.Shows k → s.checkPermission k = true

/-! ## The answer -/

namespace Store

variable (s : Store) (target : Key) (opts : QueryOptions)

/-- The node is present, and some path of present nodes leads from it to the target within the depth. -/
def Loaded (k : Key) : Prop :=
  (s.queryNode k).isSome = true ∧ ∃ n ≤ opts.depth, Search.Reaches s.sources target n k

/-- The node is a loaded one that the caller may not access or, where branches are truncated, is above such a node
along edges into loaded nodes. -/
def CutOff (k : Key) : Prop :=
  ∃ r, s.Loaded target opts r ∧ s.checkPermission r = false ∧ (k = r ∨ opts.truncateBranch = true ∧
    Relation.ReflTransGen (fun i j => s.Loaded target opts i ∧ j ∈ s.sources i) r k)

end Store

section Answer

variable {s : Store} {target : Key} {opts : QueryOptions}

theorem mem_sources_iff {j k : Key} (hk : (s.queryNode k).isSome = true) :
    j ∈ s.sources k ↔ ∃ e ∈ s.queryIncomingEdges k, e.source = j := by
  simp [Store.sources, hk]

theorem mem_nodes_iff (s : Store) (target : Key) (opts : QueryOptions) (n : ProvenanceNode) :
    n ∈ (bfsTraverse s target opts.depth).nodes ↔ s.Loaded target opts n.key ∧ s.queryNode n.key = some n := by
  obtain ⟨keys, hkeys, hnodes, -⟩ := bfsTraverse_spec s target opts.depth
  rw [hnodes, List.mem_filterMap]
  constructor
  · rintro ⟨k, hk, hn⟩
    obtain ⟨rfl, -⟩ := queryNode_key hn
    exact ⟨⟨by rw [hn]; rfl, (hkeys _).mp hk⟩, hn⟩
  · rintro ⟨⟨-, hreach⟩, hn⟩
    exact ⟨n.key, (hkeys _).mpr hreach, hn⟩

theorem exists_node_iff (s : Store) (target : Key) (opts : QueryOptions) (k : Key) :
    (∃ n ∈ (bfsTraverse s target opts.depth).nodes, n.key = k) ↔ s.Loaded target opts k := by
  constructor
  · rintro ⟨n, hn, rfl⟩
    exact ((mem_nodes_iff s target opts n).mp hn).1
  · intro hk
    obtain ⟨n, hn⟩ := Option.isSome_iff_exists.mp hk.1
    obtain ⟨rfl, -⟩ := queryNode_key hn
    exact ⟨n, (mem_nodes_iff s target opts n).mpr ⟨hk, hn⟩, rfl⟩

theorem mem_edges_iff (s : Store) (target : Key) (opts : QueryOptions) (e : ProvenanceEdge) :
    e ∈ (bfsTraverse s target opts.depth).edges ↔
      s.Loaded target opts e.target ∧ e ∈ s.queryIncomingEdges e.target := by
  obtain ⟨keys, hkeys, -, hedges⟩ := bfsTraverse_spec s target opts.depth
  rw [hedges, List.mem_flatMap]
  constructor
  · rintro ⟨k, hk, he⟩
    unfold Store.presentEdges at he
    split at he
    · next hpresent =>
        obtain rfl := target_of_incoming he
        exact ⟨⟨hpresent, (hkeys _).mp hk⟩, he⟩
    · exact absurd he List.not_mem_nil
  · rintro ⟨⟨hpresent, hreach⟩, he⟩
    exact ⟨e.target, (hkeys _).mpr hreach, by simpa [Store.presentEdges, hpresent] using he⟩

theorem mem_sourcesAlong_iff (s : Store) (target : Key) (opts : QueryOptions) (i j : Key) :
    j ∈ sourcesAlong (bfsTraverse s target opts.depth).edges i ↔ s.Loaded target opts i ∧ j ∈ s.sources i := by
  simp only [sourcesAlong, List.mem_map, List.mem_filter, mem_edges_iff, beq_iff_eq]
  constructor
  · rintro ⟨e, ⟨⟨hloaded, he⟩, rfl⟩, rfl⟩
    exact ⟨hloaded, (mem_sources_iff hloaded.1).mpr ⟨e, he, rfl⟩⟩
  · rintro ⟨hloaded, hj⟩
    obtain ⟨e, he, rfl⟩ := (mem_sources_iff hloaded.1).mp hj
    obtain rfl := target_of_incoming he
    exact ⟨e, ⟨⟨hloaded, he⟩, rfl⟩, rfl⟩

/-- The keys of the loaded nodes that the caller may not access. -/
def restrictedKeys (s : Store) (target : Key) (opts : QueryOptions) : List Key :=
  ((bfsTraverse s target opts.depth).nodes.filter (fun n => !s.checkPermission n.key)).map ProvenanceNode.key

theorem mem_restrictedKeys_iff (s : Store) (target : Key) (opts : QueryOptions) (r : Key) :
    r ∈ restrictedKeys s target opts ↔ s.Loaded target opts r ∧ s.checkPermission r = false := by
  simp only [restrictedKeys, List.mem_map, List.mem_filter, Bool.not_eq_true']
  rw [← exists_node_iff s target opts r]
  constructor
  · rintro ⟨n, ⟨hn, hperm⟩, rfl⟩
    exact ⟨⟨n, hn, rfl⟩, hperm⟩
  · rintro ⟨⟨n, hn, rfl⟩, hperm⟩
    exact ⟨n, ⟨hn, hperm⟩, rfl⟩

theorem mem_toRemove_iff (s : Store) (target : Key) (opts : QueryOptions) (k : Key) :
    k ∈ toRemove (bfsTraverse s target opts.depth).edges opts.truncateBranch (restrictedKeys s target opts) ↔
      s.CutOff target opts k := by
  unfold toRemove Store.CutOff
  split
  · next htruncate =>
      rw [Search.mem_closure_iff (fun i j hj => ?_)]
      · simp only [mem_sourcesAlong_iff, mem_restrictedKeys_iff, htruncate, true_and]
        constructor
        · rintro ⟨r, ⟨hloaded, hperm⟩, hpath⟩
          exact ⟨r, hloaded, hperm, .inr hpath⟩
        · rintro ⟨r, hloaded, hperm, rfl | hpath⟩
          · exact ⟨k, ⟨hloaded, hperm⟩, .refl⟩
          · exact ⟨r, ⟨hloaded, hperm⟩, hpath⟩
      · obtain ⟨e, he, rfl⟩ := List.mem_map.mp hj
        exact List.mem_map_of_mem (List.mem_filter.mp he).1
  · next htruncate =>
      rw [mem_restrictedKeys_iff]
      constructor
      · rintro ⟨hloaded, hperm⟩
        exact ⟨k, hloaded, hperm, .inl rfl⟩
      · rintro ⟨r, hloaded, hperm, rfl | ⟨htrue, -⟩⟩
        · exact ⟨hloaded, hperm⟩
        · exact absurd htrue htruncate

/-- **The answer to a query** has an open node for each loaded key that is not cut off, and the edges that end in a
loaded node and have no end that is. -/
theorem query_spec (uuid5 : String → NodeId) (s : Store) (target : Key) (opts : QueryOptions) :
    (∀ k, (queryProvenanceGraph uuid5 s target opts).Shows k ↔
      s.Loaded target opts k ∧ ¬ s.CutOff target opts k) ∧
    ∀ e, e ∈ (queryProvenanceGraph uuid5 s target opts).edges ↔
      (s.Loaded target opts e.target ∧ e ∈ s.queryIncomingEdges e.target) ∧
        ¬ s.CutOff target opts e.source ∧ ¬ s.CutOff target opts e.target := by
  have hnodes : (queryProvenanceGraph uuid5 s target opts).nodes = (prunePermissions uuid5 s
      (bfsTraverse s target opts.depth).nodes (bfsTraverse s target opts.depth).edges opts.truncateBranch).1 := rfl
  have hedges : (queryProvenanceGraph uuid5 s target opts).edges = (prunePermissions uuid5 s
      (bfsTraverse s target opts.depth).nodes (bfsTraverse s target opts.depth).edges opts.truncateBranch).2 := rfl
  have hopen : ∀ n ∈ (bfsTraverse s target opts.depth).nodes, n.isRestricted = false :=
    fun n hn => (queryNode_key ((mem_nodes_iff s target opts n).mp hn).2).2
  by_cases hnone : restrictedKeys s target opts = []
  · -- nothing is cut off, and the traversal is the answer
    have hcut : ∀ k, ¬ s.CutOff target opts k := by
      rintro k ⟨r, hloaded, hperm, -⟩
      have hr := (mem_restrictedKeys_iff s target opts r).mpr ⟨hloaded, hperm⟩
      rw [hnone] at hr
      exact absurd hr List.not_mem_nil
    have hprune : prunePermissions uuid5 s (bfsTraverse s target opts.depth).nodes
        (bfsTraverse s target opts.depth).edges opts.truncateBranch
          = ((bfsTraverse s target opts.depth).nodes, (bfsTraverse s target opts.depth).edges) := by
      have hempty : (restrictedKeys s target opts).isEmpty = true := by rw [hnone]; rfl
      exact if_pos hempty
    refine ⟨fun k => ?_, fun e => ?_⟩
    · rw [ProvenanceGraph.Shows, hnodes, hprune, and_iff_left (hcut k), ← exists_node_iff s target opts k]
      exact exists_congr (fun n => ⟨fun h => ⟨h.1, h.2.1⟩, fun h => ⟨h.1, h.2, hopen n h.1⟩⟩)
    · rw [hedges, hprune, mem_edges_iff]
      exact (and_iff_left ⟨hcut _, hcut _⟩).symm
  · have hprune : prunePermissions uuid5 s (bfsTraverse s target opts.depth).nodes
        (bfsTraverse s target opts.depth).edges opts.truncateBranch
          = ((bfsTraverse s target opts.depth).nodes.mapIdx (fun i n =>
              if n.key ∈ toRemove (bfsTraverse s target opts.depth).edges opts.truncateBranch
                (restrictedKeys s target opts) then restrictedNode uuid5 i else n),
            (bfsTraverse s target opts.depth).edges.filter (fun e => decide
              (e.source ∉ toRemove (bfsTraverse s target opts.depth).edges opts.truncateBranch
                (restrictedKeys s target opts) ∧
              e.target ∉ toRemove (bfsTraverse s target opts.depth).edges opts.truncateBranch
                (restrictedKeys s target opts)))) := by
      have hsome : ¬ (restrictedKeys s target opts).isEmpty = true := by simpa using hnone
      exact if_neg hsome
    refine ⟨fun k => ?_, fun e => ?_⟩
    · rw [ProvenanceGraph.Shows, hnodes, hprune, ← exists_node_iff s target opts k]
      constructor
      · rintro ⟨n, hn, rfl, hunrestricted⟩
        obtain ⟨i, hi, rfl⟩ := List.mem_mapIdx.mp hn
        split at hunrestricted
        · cases hunrestricted
        · next hkept =>
            rw [if_neg hkept]
            refine ⟨⟨_, List.getElem_mem hi, rfl⟩, ?_⟩
            rwa [mem_toRemove_iff] at hkept
      · rintro ⟨⟨n, hn, rfl⟩, hcut⟩
        obtain ⟨i, hi, rfl⟩ := List.getElem_of_mem hn
        refine ⟨_, List.mem_mapIdx.mpr ⟨i, hi, rfl⟩, ?_⟩
        rw [if_neg (by rwa [mem_toRemove_iff])]
        exact ⟨rfl, hopen _ hn⟩
    · rw [hedges, hprune, List.mem_filter, mem_edges_iff, decide_eq_true_eq, mem_toRemove_iff, mem_toRemove_iff]

end Answer

/-! ## When graphs are sealed -/

/-- **A graph is sealed exactly if nothing open hangs below something unseen.** For every store of edges, rows and
permissions, every target and every choice of depth and truncation: the answer is sealed if and only if each node
directly above an open one is itself loaded or is cut off. -/
theorem sealed_iff (uuid5 : String → NodeId) (s : Store) (target : Key) (opts : QueryOptions) :
    Sealed s (queryProvenanceGraph uuid5 s target opts) ↔
      ∀ k, s.Loaded target opts k → ¬ s.CutOff target opts k → ∀ j ∈ s.sources k,
        s.Loaded target opts j ∨ s.CutOff target opts j := by
  obtain ⟨hshows, hedges⟩ := query_spec uuid5 s target opts
  have hpermits : ∀ k, s.Loaded target opts k → ¬ s.CutOff target opts k → s.checkPermission k = true := by
    intro k hloaded hopen
    by_contra hno
    exact hopen ⟨k, hloaded, Bool.eq_false_iff.mpr hno, .inl rfl⟩
  constructor
  · intro hsealed k hloaded hopen j hj
    by_cases hcut : s.CutOff target opts j
    · exact .inr hcut
    · obtain ⟨e, he, rfl⟩ := (mem_sources_iff hloaded.1).mp hj
      obtain rfl := target_of_incoming he
      have hedge := (hedges e).mpr ⟨⟨hloaded, he⟩, hcut, hopen⟩
      exact .inl ((hshows e.source).mp (hsealed.sources e hedge)).1
  · intro hall
    refine ⟨fun e he => ?_, fun e he => ?_, fun k hk => ?_⟩
    · obtain ⟨⟨hloaded, hmem⟩, hsource, htarget⟩ := (hedges e).mp he
      have hj := (mem_sources_iff hloaded.1).mpr ⟨e, hmem, rfl⟩
      exact (hshows e.source).mpr ⟨(hall _ hloaded htarget _ hj).resolve_right hsource, hsource⟩
    · obtain ⟨⟨hloaded, -⟩, -, htarget⟩ := (hedges e).mp he
      exact (hshows e.target).mpr ⟨hloaded, htarget⟩
    · obtain ⟨hloaded, hopen⟩ := (hshows k).mp hk
      exact hpermits k hloaded hopen

/-- A snapshot with one source, a fact that the row policies hide from the caller. -/
def hiddenFact : Store where
  lineageEdges := [{ sourceNamespace := "core:fact", sourceId := 0, targetNamespace := "research:evidence_snapshot",
                     targetId := 0, edgeType := "fact_to_snapshot" }]
  row k := if k.1 = "core:fact" then none else some {}
  permits _ := true

/-- Graphs are not sealed in general: the edge names the hidden fact. -/
theorem not_sealed : ¬ ∀ (uuid5 : String → NodeId) (s : Store) (target : Key) (opts : QueryOptions),
    Sealed s (queryProvenanceGraph uuid5 s target opts) := by
  intro h
  have hsealed := h (fun _ => 0) hiddenFact ("research:evidence_snapshot", 0) {}
  have hedge : ∃ e ∈ (queryProvenanceGraph (fun _ => 0) hiddenFact ("research:evidence_snapshot", 0) {}).edges,
      e.source = ("core:fact", 0) := by decide +kernel
  have hmissing : ∀ n ∈ (queryProvenanceGraph (fun _ => 0) hiddenFact ("research:evidence_snapshot", 0) {}).nodes,
      n.key ≠ ("core:fact", 0) := by decide +kernel
  obtain ⟨e, he, hsource⟩ := hedge
  obtain ⟨n, hn, hkey, -⟩ := hsealed.sources e he
  exact hmissing n hn (hkey.trans hsource)

end Irip.Lineage
