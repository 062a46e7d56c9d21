import Irip.Lineage.Sealed
import Irip.Publication.Audience

/-!
# `Lineage.Writer` — the edges the hooks write

Freezing a snapshot, starting a run, completing a step, making a product and publishing a result each append edges to
`research_lineage_edge`. A product is the target of its run under one namespace, and the source of its result under
another one.
-/

namespace Irip.Lineage

open Research (UserId DeptId WorkspaceId SnapshotId RunId)
open Publication (ResultId Product ProductRefCollection ProductRef)
open Runs

/-! ## The hooks -/

/-- An entry of `source_refs`. -/
structure SourceRef where
  ns : String
  id : NodeId

def SourceRef.key (ref : SourceRef) : Key := (ref.ns, ref.id)

/-- The type of the edge from a source to its snapshot. -/
def sourceEdgeType (ns : String) : String :=
  if ns = "research:published_derived" ∨ ns = "research:derived" then "published_derived_to_snapshot"
  else "fact_to_snapshot"

def onSnapshotFrozen (snapshotId : SnapshotId) (sourceRefs : List SourceRef) : List LineageEdge :=
  (sourceRefs.filter (fun ref => ref.ns != "")).map (fun ref =>
    { sourceNamespace := ref.ns, sourceId := ref.id, targetNamespace := "research:evidence_snapshot",
      targetId := snapshotId, edgeType := sourceEdgeType ref.ns })

def onRunStarted (runId : RunId) (snapshotIds : List SnapshotId) : List LineageEdge :=
  snapshotIds.map (fun snapshotId =>
    { sourceNamespace := "research:evidence_snapshot", sourceId := snapshotId,
      targetNamespace := "research:analysis_run", targetId := runId, edgeType := "snapshot_to_run" })

def onStepCompleted (runId : RunId) (stepId : NodeId) : List LineageEdge :=
  [{ sourceNamespace := "research:analysis_run", sourceId := runId, targetNamespace := "research:analysis_step",
     targetId := stepId, edgeType := "run_to_step" }]

def onProductConfirmed (runId : RunId) (productNamespace : String) (productId : NodeId) (productType : String) :
    List LineageEdge :=
  [{ sourceNamespace := "research:analysis_run", sourceId := runId, targetNamespace := productNamespace,
     targetId := productId, edgeType := "run_to_" ++ productType }]

def onKnowledgeReferenced (referenceId : NodeId) (insightId : Option NodeId) : List LineageEdge :=
  insightId.toList.map (fun insightId =>
    { sourceNamespace := "research:knowledge_reference", sourceId := referenceId,
      targetNamespace := "research:insight", targetId := insightId, edgeType := "knowledge_ref_to_insight" })

/-- A loop of `record_publication_edges`. -/
def publicationEdges (resultId : ResultId) (versionNumber : Nat) (sourceNamespace edgeType : String)
    (refs : List ProductRef) : List LineageEdge :=
  refs.map (fun ref =>
    { sourceNamespace := sourceNamespace, sourceId := ref.id, sourceVersion := some ref.versionNumber,
      targetNamespace := "research:result_version", targetId := resultId, targetVersion := some versionNumber,
      edgeType := edgeType })

def recordPublicationEdges (resultId : ResultId) (versionNumber : Nat) (ws : WorkspaceId)
    (refs : ProductRefCollection) : List LineageEdge :=
  { sourceNamespace := "research:workspace", sourceId := ws, targetNamespace := "research:result_version",
    targetId := resultId, targetVersion := some versionNumber, edgeType := "workspace_to_result" } ::
  (publicationEdges resultId versionNumber "research:dataset_version" "dataset_to_result" refs.datasetVersionRefs ++
    publicationEdges resultId versionNumber "research:view_version" "view_to_result" refs.viewVersionRefs ++
    publicationEdges resultId versionNumber "research:insight_version" "insight_to_result" refs.insightVersionRefs)

/-! ## The system -/

/-- Publication, the source references of the snapshot with the same key, and the edges. -/
structure State where
  sys : Publication.Sys := {}
  sources : List (List SourceRef) := []
  edges : List LineageEdge := []

/-- The steps of the system. -/
inductive Action where
  | publication (a : Publication.Action)
  | freeze (ws : WorkspaceId) (actor : UserId) (dept : DeptId) (refs : List Publication.EvidenceRef)
      (sourceRefs : List SourceRef)
  | runStarted (r : RunId)
  | stepCompleted (r : RunId) (stepId : NodeId)
  | knowledgeReferenced (referenceId : NodeId)

/-- The references of a publication. -/
def publishedRefs (s : Publication.Sys) (actor : UserId) (ws : WorkspaceId) (req : Publication.PublishRequest) :
    ProductRefCollection :=
  ((Publication.collectProductRefs s actor ws req).toOption).getD {}

/-- The edges a call of the product or the publication service writes. -/
def written (s : Publication.Sys) : Publication.Action → List LineageEdge
  | .createDataset _ _ artifact _ _ => s.timeline.db.artifacts[artifact]?.toList.flatMap (fun x =>
    onProductConfirmed x.runId "research:derived_dataset" s.datasets.length "dataset")
  | .createView _ _ artifact _ _ => s.timeline.db.artifacts[artifact]?.toList.flatMap (fun x =>
    onProductConfirmed x.runId "research:view" s.views.length "view")
  | .createInsight _ _ candidate => candidate.runId.toList.flatMap (fun r =>
    onProductConfirmed r "research:insight" s.insights.length "insight")
  | .publishResult actor ws req => recordPublicationEdges s.results.length 1 ws (publishedRefs s actor ws req)
  | .publishNewVersion actor r ws req => s.results[r]?.toList.flatMap (fun result =>
    recordPublicationEdges r (result.currentVersion + 1) ws (publishedRefs s actor ws req))
  | _ => []

/-- `freeze_snapshot` of publication. -/
def isFreeze : Publication.Action → Bool
  | .freeze _ _ _ _ => true
  | _ => false

/-- One step. The hook for a knowledge reference is called without an insight. -/
def step (s : State) : Action → Option State
  | .publication a =>
    if isFreeze a then none
    else (Publication.step s.sys a).map (fun sys => { s with sys := sys, edges := s.edges ++ written s.sys a })
  | .freeze ws actor dept refs sourceRefs =>
    (Publication.step s.sys (.freeze ws actor dept refs)).map (fun sys =>
      { sys := sys, sources := s.sources ++ [sourceRefs],
        edges := s.edges ++ onSnapshotFrozen s.sys.timeline.db.snapshots.length sourceRefs })
  | .runStarted r => s.sys.timeline.db.runs[r]?.map (fun run =>
    { s with edges := s.edges ++ onRunStarted r [run.snapshotId] })
  | .stepCompleted r stepId => s.sys.timeline.db.runs[r]?.map (fun _ =>
    { s with edges := s.edges ++ onStepCompleted r stepId })
  | .knowledgeReferenced referenceId => some { s with edges := s.edges ++ onKnowledgeReferenced referenceId none }

/-- The system before its first call. -/
def init : State := {}

/-! ## What lies above a result -/

/-- The namespaces publication writes. -/
def published : List String :=
  ["research:result_version", "research:workspace", "research:dataset_version", "research:view_version",
   "research:insight_version"]

/-- No edge leads from elsewhere into the namespaces publication writes. -/
def Cut (edges : List LineageEdge) : Prop := ∀ e ∈ edges, e.targetNamespace ∈ published → e.sourceNamespace ∈ published

section Steps

variable {s s' : State} {a : Action}

theorem Cut.append {es es' : List LineageEdge} (h : Cut es) (h' : Cut es') : Cut (es ++ es') := by
  intro e he
  rcases List.mem_append.mp he with he | he
  · exact h e he
  · exact h' e he

theorem cut_onSnapshotFrozen (snapshotId : SnapshotId) (refs : List SourceRef) :
    Cut (onSnapshotFrozen snapshotId refs) := by
  intro e he htarget
  obtain ⟨ref, -, rfl⟩ := List.mem_map.mp he
  have hother : "research:evidence_snapshot" ∉ published := by decide
  exact absurd htarget hother

theorem cut_onRunStarted (runId : RunId) (snapshotIds : List SnapshotId) : Cut (onRunStarted runId snapshotIds) := by
  intro e he htarget
  obtain ⟨snapshotId, -, rfl⟩ := List.mem_map.mp he
  have hother : "research:analysis_run" ∉ published := by decide
  exact absurd htarget hother

theorem cut_onStepCompleted (runId : RunId) (stepId : NodeId) : Cut (onStepCompleted runId stepId) := by
  intro e he htarget
  rw [List.mem_singleton.mp he] at htarget
  have hother : "research:analysis_step" ∉ published := by decide
  exact absurd htarget hother

theorem cut_onProductConfirmed {ns : String} (hns : ns ∉ published) (runId : RunId) (productId : NodeId)
    (productType : String) : Cut (onProductConfirmed runId ns productId productType) := by
  intro e he htarget
  rw [List.mem_singleton.mp he] at htarget
  exact absurd htarget hns

theorem cut_recordPublicationEdges (resultId : ResultId) (versionNumber : Nat) (ws : WorkspaceId)
    (refs : ProductRefCollection) : Cut (recordPublicationEdges resultId versionNumber ws refs) := by
  have hloop : ∀ (ns edgeType : String) (rs : List ProductRef), ns ∈ published →
      Cut (publicationEdges resultId versionNumber ns edgeType rs) := by
    intro ns edgeType rs hns e he _
    obtain ⟨ref, -, rfl⟩ := List.mem_map.mp he
    exact hns
  intro e he htarget
  have hworkspace : "research:workspace" ∈ published := by decide
  rcases List.mem_cons.mp he with rfl | he
  · exact hworkspace
  · exact (((hloop _ _ _ (by decide)).append (hloop _ _ _ (by decide))).append (hloop _ _ _ (by decide))) e he htarget

theorem cut_flatMap {α : Type} {xs : List α} {f : α → List LineageEdge} (h : ∀ x ∈ xs, Cut (f x)) :
    Cut (xs.flatMap f) := by
  intro e he
  obtain ⟨x, hx, he⟩ := List.mem_flatMap.mp he
  exact h x hx e he

theorem cut_written (s : Publication.Sys) (a : Publication.Action) : Cut (written s a) := by
  have hnil : Cut [] := List.forall_mem_nil _
  cases a with
  | createDataset actor ws artifact file name | createView actor ws artifact file name =>
    exact cut_flatMap (fun x _ => cut_onProductConfirmed (by decide) _ _ _)
  | createInsight actor ws candidate => exact cut_flatMap (fun r _ => cut_onProductConfirmed (by decide) _ _ _)
  | publishResult actor ws req => exact cut_recordPublicationEdges _ _ _ _
  | publishNewVersion actor r ws req => exact cut_flatMap (fun result _ => cut_recordPublicationEdges _ _ _ _)
  | _ => exact hnil

/-- **No hook joins what publication writes to the rest.** -/
theorem cut_step (h : step s a = some s') (hs : Cut s.edges) : Cut s'.edges := by
  cases a with
  | publication a =>
    simp only [step] at h
    split at h
    · cases h
    · obtain ⟨sys, -, rfl⟩ := Option.map_eq_some_iff.mp h
      exact hs.append (cut_written s.sys a)
  | freeze ws actor dept refs sourceRefs =>
    obtain ⟨sys, -, rfl⟩ := Option.map_eq_some_iff.mp h
    exact hs.append (cut_onSnapshotFrozen _ sourceRefs)
  | runStarted r =>
    obtain ⟨run, -, rfl⟩ := Option.map_eq_some_iff.mp h
    exact hs.append (cut_onRunStarted r _)
  | stepCompleted r stepId =>
    obtain ⟨run, -, rfl⟩ := Option.map_eq_some_iff.mp h
    exact hs.append (cut_onStepCompleted r stepId)
  | knowledgeReferenced referenceId =>
    obtain rfl := Option.some.inj h
    exact hs.append (List.forall_mem_nil _)

end Steps

/-- What the sessions of a query answer in a state: its edges, and any rows and permissions. -/
def State.store (s : State) (provenanceEdges : List LineageEdge) (row : Key → Option NodeRow) (permits : Key → Bool) :
    Store :=
  { lineageEdges := s.edges, provenanceEdges := provenanceEdges, row := row, permits := permits }

section Closure

variable {s : State} {provenanceEdges : List LineageEdge} {row : Key → Option NodeRow} {permits : Key → Bool}

theorem not_core_of_published : ∀ ns ∈ published, routesToCore ns = false := by decide +kernel

theorem published_of_reaches (hs : Cut s.edges) {r : ResultId} {n : Nat} {k : Key}
    (h : Search.Reaches (s.store provenanceEdges row permits).sources ("research:result_version", r) n k) :
    k.1 ∈ published := by
  induction h with
  | start =>
    have hresult : "research:result_version" ∈ published := by decide
    exact hresult
  | @step n j k _ hnext ih =>
    unfold Store.sources at hnext
    split at hnext
    · obtain ⟨e, he, rfl⟩ := List.mem_map.mp hnext
      have htarget := target_of_incoming he
      unfold Store.queryIncomingEdges at he
      rw [not_core_of_published _ ih, if_neg Bool.false_ne_true] at he
      obtain ⟨x, hx, rfl⟩ := List.mem_map.mp he
      have hj : x.targetNamespace = j.1 := congrArg Prod.fst htarget
      exact hs x (List.mem_filter.mp hx).1 (hj ▸ ih)
    · exact absurd hnext List.not_mem_nil

theorem shows_published (hs : Cut s.edges) (uuid5 : String → NodeId) {r : ResultId} {opts : QueryOptions} {k : Key}
    (h : (queryProvenanceGraph uuid5 (s.store provenanceEdges row permits) ("research:result_version", r) opts).Shows
      k) : k.1 ∈ published := by
  obtain ⟨⟨-, n, -, hreach⟩, -⟩ := ((query_spec uuid5 _ _ opts).1 k).mp h
  exact published_of_reaches hs hreach

end Closure

/-! ## Tracing -/

/-- The graph shows the run that made a product, the snapshot the run was executed on, and what that snapshot was
frozen from. -/
structure Traced (s : State) (g : ProvenanceGraph) (p : Product) : Prop where
  run : ∀ r ∈ p.sourceRunId, g.Shows ("research:analysis_run", r)
  snapshot : ∀ r ∈ p.sourceRunId, ∀ run ∈ s.sys.timeline.db.runs[r]?,
    g.Shows ("research:evidence_snapshot", run.snapshotId)
  sources : ∀ r ∈ p.sourceRunId, ∀ run ∈ s.sys.timeline.db.runs[r]?, ∀ refs ∈ s.sources[run.snapshotId]?,
    ∀ ref ∈ refs, g.Shows ref.key

theorem cut_of_run (acts : List Action) : ∀ u ∈ play step init acts, Cut u.pre.edges ∧ Cut u.post.edges := by
  have hrun : Run step init _ _ := play_run init acts
  have hinit : Cut init.edges := List.forall_mem_nil _
  exact hrun.invariant_of_step (I := fun s => Cut s.edges) (fun h hs => cut_step h hs) hinit

/-- **No dataset is traced from its result.** For every history in which all hooks succeed, every version of a result
and every dataset it refers to that was made of an artifact: whatever rows and edges the sessions answer besides,
and to any depth, the graph above the result does not show what the dataset was made from. -/
theorem not_traced (acts : List Action) : ∀ u ∈ play step init acts, ∀ v ∈ u.post.sys.versions,
    ∀ ref ∈ v.refs.datasetVersionRefs, ∀ p ∈ u.post.sys.datasets[ref.id]?.join, p.sourceRunId.isSome = true →
    ∀ (uuid5 : String → NodeId) (provenanceEdges : List LineageEdge) (row : Key → Option NodeRow)
      (permits : Key → Bool) (opts : QueryOptions),
      ¬ Traced u.post (queryProvenanceGraph uuid5 (u.post.store provenanceEdges row permits)
        ("research:result_version", v.resultId) opts) p := by
  intro u hu v _ ref _ p _ hmade uuid5 provenanceEdges row permits opts htraced
  obtain ⟨r, hr⟩ := Option.isSome_iff_exists.mp hmade
  have hshown := shows_published (cut_of_run acts u hu).2 uuid5 (htraced.run r hr)
  have hother : "research:analysis_run" ∉ published := by decide
  exact hother hshown

/-- A step of publication with its hook, where a snapshot is of one fact. -/
def withHook : Publication.Action → Action
  | .freeze ws actor dept refs => .freeze ws actor dept refs [{ ns := "core:fact", id := 0 }]
  | a => .publication a

/-- The owner of a workspace publishes a dataset made of an artifact of a run, and every hook has been called. -/
def publishedDataset : List Action :=
  (.directory (fun user dept => user == 0 && dept == 0) :: Research.finishedRun.map Publication.lift).map withHook ++
    [.runStarted 0,
     .publication (.createDataset 0 0 0
       { artifactType := "data", contentHash := "", downloadable := true, errors := [] } "data"),
     .publication (.publishResult 0 0 { title := "data", datasetIds := [0] })]

theorem step_dispatch (e : Nat) (s : State) : step s (.publication (.timeline (.dispatch e true))) =
    (Research.step s.sys.timeline (.dispatch e true)).map
      (fun t => { s with sys := { s.sys with timeline := t }, edges := s.edges ++ [] }) := by
  show Option.map _ (Publication.step s.sys (.timeline (.dispatch e true))) = _
  rw [Publication.step_dispatch, Option.map_map]
  rfl

theorem play_publishedDataset : play step init publishedDataset =
    Research.playFinished step (fun s => s.sys.timeline)
      (fun s t => { s with sys := { s.sys with timeline := t }, edges := s.edges ++ [] }) init
      (Publication.beforePlan.map withHook) (.publication (.timeline (.dispatch 1 true)))
      (Publication.beforeRun.map withHook) (.publication (.timeline (.dispatch 2 true))) (publishedDataset.drop 13) :=
  Research.play_deliveries (Publication.beforePlan.map withHook) (Publication.beforeRun.map withHook) (publishedDataset.drop 13)
    (Research.play_delivery (step_dispatch 1) rfl rfl _) rfl
    (Research.play_delivery (step_dispatch 2) rfl rfl _)

theorem exists_publishedDataset : ∃ u ∈ play step init publishedDataset, ∃ v ∈ u.post.sys.versions,
    ∃ ref ∈ v.refs.datasetVersionRefs, ∃ p ∈ u.post.sys.datasets[ref.id]?.join, p.sourceRunId.isSome = true := by
  rw [play_publishedDataset]
  decide +kernel

/-- The owner, who may see everything, does not find its run. -/
theorem not_traced_publishedDataset : ∃ u ∈ play step init publishedDataset, ∃ v ∈ u.post.sys.versions,
    ∃ ref ∈ v.refs.datasetVersionRefs, ∃ p ∈ u.post.sys.datasets[ref.id]?.join, p.sourceRunId.isSome = true ∧
      ¬ Traced u.post (queryProvenanceGraph (fun _ => 0) (u.post.store [] (fun _ => some {}) (fun _ => true))
        ("research:result_version", v.resultId) {}) p := by
  obtain ⟨u, hu, v, hv, ref, href, p, hp, hmade⟩ := exists_publishedDataset
  exact ⟨u, hu, v, hv, ref, href, p, hp, hmade,
    not_traced publishedDataset u hu v hv ref href p hp hmade (fun _ => 0) [] (fun _ => some {}) (fun _ => true) {}⟩

/-- Datasets are not traced in general. -/
theorem not_always_traced : ¬ ∀ acts : List Action, ∀ u ∈ play step init acts, ∀ v ∈ u.post.sys.versions,
    ∀ ref ∈ v.refs.datasetVersionRefs, ∀ p ∈ u.post.sys.datasets[ref.id]?.join, p.sourceRunId.isSome = true →
      Traced u.post (queryProvenanceGraph (fun _ => 0) (u.post.store [] (fun _ => some {}) (fun _ => true))
        ("research:result_version", v.resultId) {}) p := by
  intro h
  obtain ⟨u, hu, v, hv, ref, href, p, hp, hmade⟩ := exists_publishedDataset
  obtain ⟨r, hr⟩ := Option.isSome_iff_exists.mp hmade
  have htraced := h publishedDataset u hu v hv ref href p hp hmade
  have hshown := shows_published (cut_of_run publishedDataset u hu).2 (fun _ => 0) (htraced.run r hr)
  have hother : "research:analysis_run" ∉ published := by decide
  exact hother hshown

end Irip.Lineage
