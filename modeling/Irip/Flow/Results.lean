import Irip.Flow.Validation
import Irip.Flow.World

/-!
# `Flow.Results` — what a flow comes to

With deterministic components the version and the inputs determine the result of every node, and with them
the digest of a succeeded run. A call that has read the stored summaries of some nodes passes the same
parameters on, unless a binding names one of the two entries that only a stored summary has.
-/

namespace Irip.Flow

variable {S : Scenario} {rs rs' : List (String × ComponentResult)}

/-! ## Results -/

/-- The execution order of the flow. -/
def Scenario.order (S : Scenario) : List String :=
  match topologicalSort S.version.nodes S.version.edges with
  | .ok order => order
  | .error _ => []

theorem Scenario.sorted_order (hpub : S.version.Published) :
    topologicalSort S.version.nodes S.version.edges = .ok S.order := by
  obtain ⟨order, hsort⟩ := hpub.sorted
  unfold Scenario.order
  rw [hsort]

/-- The results of the first nodes of a pass in which nothing fails. -/
inductive Scenario.Results (S : Scenario) : List (String × ComponentResult) → Prop where
  | nil : S.Results []
  | snoc {rs id node params} : S.Results rs → (nodeMapOf S.version.nodes).get? id = some node →
      executeParams S.jsonb node (S.latest node.componentName) S.snapshot (.ofList rs) = .ok params →
      S.Results (rs ++ [(id, S.runner (S.latest node.componentName) params)])

/-- **The nodes determine their results.** -/
theorem Scenario.Results.unique (h : S.Results rs) (h' : S.Results rs')
    (hids : rs.map Prod.fst = rs'.map Prod.fst) : rs = rs' := by
  induction h generalizing rs' with
  | nil => exact (List.map_eq_nil_iff.mp hids.symm).symm
  | @snoc rs id node params _ hnode hparams ih =>
    cases h' with
    | nil => simp at hids
    | @snoc rs' id' node' params' hrs' hnode' hparams' =>
      rw [List.map_append, List.map_append] at hids
      obtain ⟨hinit, hlast⟩ := List.append_inj' hids rfl
      obtain rfl := ih hrs' hinit
      obtain rfl : id = id' := by simpa using hlast
      obtain rfl := Option.some.inj (hnode.symm.trans hnode')
      obtain rfl := Except.ok.inj (hparams.symm.trans hparams')
      rfl

theorem Scenario.Results.answered (h : S.Results rs) :
    ∀ e ∈ rs, ∃ m params, e.2 = S.runner m params := by
  induction h with
  | nil => exact fun _ he => nomatch he
  | snoc _ _ _ ih =>
    intro e he
    rcases List.mem_append.mp he with he | he
    · exact ih e he
    · obtain rfl := List.mem_singleton.mp he
      exact ⟨_, _, rfl⟩

/-- What the digest takes of a result. -/
def resultSummary (e : String × ComponentResult) : NodeSummary :=
  { nodeId := e.1, status := .succeeded, outputSummary := serializeOutputSummary e.2 }

/-- The digest of a run that came to these results, in this order. -/
def Scenario.digest (S : Scenario) (rs : List (String × ComponentResult)) : String :=
  computeOutputDigest S.version.digest S.snapshot (rs.map resultSummary)

/-! ## Assumptions -/

/-- The runner is a function of the component and of the parameters as Python compares them, and its outputs
are JSON values. -/
structure Scenario.Deterministic (S : Scenario) : Prop where
  same : ∀ m p q, p.Same q → S.runner m p = S.runner m q
  json : ∀ m p, ∀ v ∈ (S.runner m p).outputs.values, v.plain = v

/-- JSONB gives every summary back as it was written. -/
def Scenario.KeepsSummaries (S : Scenario) : Prop :=
  ∀ m p, storedSummary S.jsonb (S.runner m p) = serializeOutputSummary (S.runner m p)

theorem Scenario.Results.stored (hkeep : S.KeepsSummaries) (h : S.Results rs) {e : String × ComponentResult}
    (he : e ∈ rs) : storedSummary S.jsonb e.2 = serializeOutputSummary e.2 := by
  obtain ⟨m, params, heq⟩ := h.answered e he
  rw [heq]
  exact hkeep m params

/-! ## Outputs seen -/

/-- The outputs a call holds: stored summaries for the nodes it has restored, live outputs for the rest. -/
def Scenario.Seen (S : Scenario) (restored : List String) (rs : List (String × ComponentResult))
    (outputs : Dict String JsonDict) : Prop :=
  outputs.Same (seenOutputs S.jsonb (.ofList rs) (fun id => decide (id ∈ restored)))

variable {outputs : Dict String JsonDict} {restored : List String}

theorem Scenario.Seen.set
    (h : S.Seen restored rs outputs) {id : String} (hid : id ∉ restored) (result : ComponentResult) :
    S.Seen restored (rs ++ [(id, result)]) (outputs.set id result.outputs) := by
  intro k
  rw [Dict.get?_set, get?_seenOutputs, Dict.ofList_append, Dict.get?_set]
  by_cases hk : k = id
  · subst hk
    simp [hid]
  · rw [if_neg hk, if_neg hk, h k, get?_seenOutputs]

theorem seen_restored (hrs : (rs.map Prod.fst).Nodup) {es : List (String × JsonDict)}
    (hes : es.Perm (rs.map (fun e => (e.1, storedSummary S.jsonb e.2)))) :
    S.Seen (rs.map Prod.fst) rs (.ofList es) := by
  intro k
  have hkeys : ((rs.map (fun e => (e.1, storedSummary S.jsonb e.2))).map Prod.fst).Nodup := by
    rwa [List.map_map]
  rw [Dict.same_ofList_of_perm hes hkeys k, Dict.get?_ofList_map (storedSummary S.jsonb), get?_seenOutputs]
  cases hget : (Dict.ofList rs).get? k with
  | none => rfl
  | some result =>
    have hk : k ∈ rs.map Prod.fst := List.mem_map.mpr ⟨_, Dict.mem_of_get?_ofList hget, rfl⟩
    simp [hk]

/-! ## Parameters -/

theorem resolveInput_congr {outputs' : Dict String JsonDict} (h : outputs.Same outputs')
    (binding : String) (snapshot : JsonDict) :
    resolveInput binding outputs snapshot = resolveInput binding outputs' snapshot := by
  unfold resolveInput Dict.getD
  cases splitBinding binding with
  | none => rfl
  | some ref =>
    obtain ⟨src, port⟩ := ref
    simp only [h src]

theorem boundInputs_congr {outputs' : Dict String JsonDict} (h : outputs.Same outputs')
    (node : FlowNode) (snapshot : JsonDict) :
    boundInputs node outputs snapshot = boundInputs node outputs' snapshot := by
  unfold boundInputs
  congr 1
  funext binding
  exact resolveInput_congr h binding snapshot

/-- The entries `serialize_output_summary` adds to the outputs. -/
def addedKeys : List String := ["_metadata", "_summary_text"]

/-- No other node reads an added entry of a restored node, unless an external input takes the port over. -/
def Scenario.Restorable (S : Scenario) (restored : List String) : Prop :=
  ∀ node ∈ S.version.nodes, node.nodeId ∉ restored → ∀ e ∈ node.inputBindings.entries,
    ∀ ref ∈ splitBinding e.2, ref.1 ∈ restored → ref.2 ∈ addedKeys →
      ∃ val ∈ S.snapshot.get? e.1, Admissible (boundInputs node ∅ S.snapshot) e.1 val

instance (S : Scenario) (restored : List String) : Decidable (S.Restorable restored) :=
  inferInstanceAs (Decidable (∀ node ∈ _, _ → ∀ e ∈ _, ∀ ref ∈ _, _ → _ → ∃ val ∈ _, _))

theorem get?_serialize (hdet : S.Deterministic) (m : ComponentManifest) (p : JsonDict) {key : String}
    (hkey : key ∉ addedKeys) : (serializeOutputSummary (S.runner m p)).get? key = (S.runner m p).outputs.get? key := by
  simp only [addedKeys, List.mem_cons, List.not_mem_nil, or_false, not_or] at hkey
  unfold serializeOutputSummary
  rw [Dict.get?_set, if_neg hkey.2, Dict.get?_set, if_neg hkey.1, Dict.get?_mapVal]
  cases hval : (S.runner m p).outputs.get? key with
  | none => rfl
  | some v =>
    have hv : v ∈ (S.runner m p).outputs.values :=
      List.mem_map.mpr ⟨_, Dict.get?_eq_some_iff.mp hval, rfl⟩
    rw [Option.map_some, hdet.json m p v hv]

theorem resolveInput_restored (hdet : S.Deterministic) (hkeep : S.KeepsSummaries) (hrs : S.Results rs)
    {binding : String}
    (h : ∀ ref ∈ splitBinding binding, ref.1 ∈ restored → ref.2 ∉ addedKeys) :
    resolveInput binding (seenOutputs S.jsonb (.ofList rs) (fun id => decide (id ∈ restored))) S.snapshot
      = resolveInput binding (seenOutputs S.jsonb (.ofList rs) (fun _ => false)) S.snapshot := by
  unfold resolveInput
  cases hsplit : splitBinding binding with
  | none => rfl
  | some ref =>
    simp only [Dict.getD, get?_seenOutputs]
    cases hget : (Dict.ofList rs).get? ref.1 with
    | none => rfl
    | some result =>
      by_cases hmem : ref.1 ∈ restored
      · have hentry := Dict.mem_of_get?_ofList hget
        obtain ⟨m, p, hresult⟩ := hrs.answered _ hentry
        have hread := get?_serialize hdet m p (h ref hsplit hmem)
        rw [← hresult] at hread
        simp [hmem, hrs.stored hkeep hentry, getOrNone, Dict.getD, hread]
      · simp [hmem]

/-- **The inputs of a node do not depend on what has been restored.** -/
theorem same_loopInputs (hdet : S.Deterministic) (hkeep : S.KeepsSummaries) (hrs : S.Results rs)
    (hseen : S.Seen restored rs outputs)
    (hread : S.Restorable restored) {node : FlowNode} (hnode : node ∈ S.version.nodes)
    (hid : node.nodeId ∉ restored) :
    (loopInputs node outputs S.snapshot).Same
      (loopInputs node (seenOutputs S.jsonb (.ofList rs) (fun _ => false)) S.snapshot) := by
  intro k
  rcases get?_loopInputs node S.snapshot outputs k with ⟨val, hval, ha, hl⟩ | ⟨hno, hl⟩
  · rcases get?_loopInputs node S.snapshot (seenOutputs S.jsonb (.ofList rs) (fun _ => false)) k with
      ⟨val', hval', _, hr⟩ | ⟨hno, _⟩
    · rw [hl, hr, ← hval, ← hval']
    · exact absurd ha (hno val hval)
  · rcases get?_loopInputs node S.snapshot (seenOutputs S.jsonb (.ofList rs) (fun _ => false)) k with
      ⟨val', hval', ha, _⟩ | ⟨_, hr⟩
    · exact absurd ha (hno val' hval')
    · rw [hl, hr, boundInputs_congr hseen, get?_boundInputs, get?_boundInputs]
      cases hb : node.inputBindings.get? k with
      | none => rfl
      | some binding =>
        rw [Option.map_some, Option.map_some, resolveInput_restored hdet hkeep hrs]
        intro ref href hmem hadded
        obtain ⟨val, hval, ha⟩ :=
          hread node hnode hid (k, binding) (Dict.get?_eq_some_iff.mp hb) ref href hmem hadded
        exact hno val hval ha

theorem Scenario.Results.snoc_same (hdet : S.Deterministic) (hrs : S.Results rs) {id : String} {node : FlowNode}
    {params : JsonDict} (hnode : (nodeMapOf S.version.nodes).get? id = some node)
    (hsame : SameParams (.ok params)
      (executeParams S.jsonb node (S.latest node.componentName) S.snapshot (.ofList rs))) :
    S.Results (rs ++ [(id, S.runner (S.latest node.componentName) params)]) := by
  cases hlive : executeParams S.jsonb node (S.latest node.componentName) S.snapshot (.ofList rs) with
  | error e =>
    rw [hlive] at hsame
    exact hsame.elim
  | ok live =>
    rw [hlive] at hsame
    rw [hdet.same _ _ _ hsame]
    exact .snoc hrs hnode hlive

/-- **The result of the next node**, whatever the call has restored. -/
theorem Scenario.Results.next (hdet : S.Deterministic) (hkeep : S.KeepsSummaries) (hrs : S.Results rs)
    (hseen : S.Seen restored rs outputs)
    (hread : S.Restorable restored) {id : String} {node : FlowNode} {params : JsonDict}
    (hnode : (nodeMapOf S.version.nodes).get? id = some node) (hid : id ∉ restored) {inputs : JsonDict}
    (hinputs : SameParams (mergedParams node (S.latest node.componentName) inputs)
      (mergedParams node (S.latest node.componentName) (loopInputs node outputs S.snapshot)))
    (hparams : mergedParams node (S.latest node.componentName) inputs = .ok params) :
    S.Results (rs ++ [(id, S.runner (S.latest node.componentName) params)]) := by
  obtain ⟨hmem, rfl⟩ := nodeMapOf_get? hnode
  have hsame := same_loopInputs hdet hkeep hrs hseen hread hmem hid
  rw [sameParams_merge] at hinputs
  refine hrs.snoc_same hdet hnode ?_
  rw [← hparams]
  unfold executeParams
  rw [sameParams_merge]
  intro base hbase k
  rw [hinputs base hbase k, hsame k]

end Irip.Flow
