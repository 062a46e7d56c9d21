import Irip.Publication.Versions

/-!
# `Publication.Reuse` — reading and reusing what a result publishes

Whoever may read a result may open its products, take one of its datasets into a workspace of his own as evidence, or
begin a workspace with all of them. The three calls look at the latest version of the result, whatever its status.
-/

namespace Irip.Publication

open Research (UserId DeptId WorkspaceId)
open Jobs (uuidText)
open Evaluation (bind_ok_iff)
open Runs

/-! ## Reading a result -/

/-- The row policy of `research_result`, which its versions inherit. -/
def Sys.readsResult (s : Sys) (actor : UserId) (result : ResearchResult) : Bool :=
  result.ownerUserId == actor || (result.status == .published &&
    s.timeline.db.workspaces[result.workspaceId]?.any (fun w => result.currentAclType.allows s.visible
      ⟨result.ownerUserId, w.departmentId⟩ result.currentExplicitUserIds actor))

def Sys.getResult (s : Sys) (actor : UserId) (r : ResultId) : Option ResearchResult :=
  s.results[r]?.filter (s.readsResult actor)

/-- `_check_result_visible`: the department is left to the row policy. -/
def checkResultVisible (result : ResearchResult) (principal : UserId) : Bool :=
  match result.currentAclType with
  | .ownerOnly => result.ownerUserId == principal
  | .tree => true
  | .explicit => result.currentExplicitUserIds.contains principal || result.ownerUserId == principal
  | .all => true
  | .other _ => false

/-- The user may read the result. -/
def Sys.shows (s : Sys) (actor : UserId) (r : ResultId) : Prop :=
  ∃ result ∈ s.getResult actor r, checkResultVisible result actor = true

/-- The row `get_latest_result_version` answers. -/
def Sys.latestVersion (s : Sys) (r : ResultId) : Option ResearchResultVersion :=
  (s.getLatestVersion r).bind (s.versions[·]?)

/-- The steps all three calls begin with. -/
def Sys.requireLatest (s : Sys) (actor : UserId) (r : ResultId) : Except AppError ResearchResultVersion :=
  match s.getResult actor r with
  | none => .error { code := "not_found", message := "成果包不存在", fields := [("result_id", .str (uuidText r))] }
  | some result =>
    if checkResultVisible result actor then
      match s.latestVersion r with
      | none => .error { code := "not_found", message := "成果包尚无发布版本" }
      | some v => .ok v
    else .error { code := "forbidden", message := "无权访问此成果包" }

/-! ## The calls -/

/-- The kind an `object_type` names. -/
def ProductKind.ofType : String → Option ProductKind
  | "dataset" => some .dataset
  | "view" => some .view
  | "insight" => some .insight
  | _ => none

/-- The references of one kind. -/
def ProductRefCollection.of (refs : ProductRefCollection) : ProductKind → List ProductRef
  | .dataset => refs.datasetVersionRefs
  | .view => refs.viewVersionRefs
  | .insight => refs.insightVersionRefs

/-- The details of a product version. -/
structure ObjectDetail where
  objectType : ProductKind
  id : ProductId
  name : String
  version : ProductVersion

/-- `get_dataset`, `get_view` and `get_insight` by the key alone: the row policy asks for the workspace. -/
def Sys.findProduct (s : Sys) (actor : UserId) (kind : ProductKind) (id : ProductId) : Option Product :=
  (s.products kind)[id]?.join.filter (fun p => s.sees actor p.workspaceId)

/-- The word for the product and its version in the error of the details. -/
def ProductKind.detailLabel : ProductKind → String
  | .dataset => "数据集或版本不存在"
  | .view => "视图或版本不存在"
  | .insight => "Insight 或版本不存在"

/-- `_get_dataset_detail`, `_get_view_detail` and `_get_insight_detail`. -/
def getDetail (s : Sys) (actor : UserId) (kind : ProductKind) (id : ProductId) (versionNumber : Nat) :
    Except AppError ObjectDetail :=
  let missing : AppError :=
    { code := "not_found", message := kind.detailLabel, fields := [(kind.field, .str (uuidText id))] }
  match s.findProduct actor kind id with
  | none => .error missing
  | some p =>
    match p.version.filter (fun v => v.versionNumber == versionNumber) with
    | none => .error missing
    | some v => .ok { objectType := kind, id := id, name := p.name, version := v }

def getResultInternalObject (s : Sys) (actor : UserId) (r : ResultId) (objectType : String) (id : ProductId) :
    Except AppError ObjectDetail := do
  let latest ← s.requireLatest actor r
  match ProductKind.ofType objectType with
  | none => .error { code := "validation_failed", message := "不支持的对象类型: " ++ objectType,
                          fields := [("object_type", .str objectType)] }
  | some kind =>
    match (latest.refs.of kind).find? (fun ref => ref.id == id) with
    | none => .error { code := "not_found", message := "对象 " ++ uuidText id ++ " 不在成果包版本中",
                           fields := [("object_id", .str (uuidText id))] }
    | some ref => getDetail s actor kind id (if ref.versionNumber = 0 then 1 else ref.versionNumber)

/-- A row of `research_workspace_evidence_ref`. -/
structure WorkspaceEvidenceRef where
  workspaceId : WorkspaceId
  sourceNamespace : String
  sourceId : ProductId
  sourceVersion : String
  sourceName : String
  addedBy : UserId
  status : String := "active"

/-- `insert_evidence_ref` of a dataset of a result. -/
def publishedDerived (latest : ResearchResultVersion) (actor : UserId) (ws : WorkspaceId) (id : ProductId)
    (versionNumber : Int) : WorkspaceEvidenceRef :=
  { workspaceId := ws, sourceNamespace := "research:published_derived", sourceId := id,
    sourceVersion := toString versionNumber, sourceName := latest.title, addedBy := actor }

/-- `add_to_workspace`: the row it inserts. A number the caller gives goes before the one that is referenced, unless
it is 0. -/
def addToWorkspace (s : Sys) (actor : UserId) (r : ResultId) (ws : WorkspaceId) (datasetId : ProductId)
    (versionNumber : Option Int) : Except AppError WorkspaceEvidenceRef := do
  let latest ← s.requireLatest actor r
  match latest.refs.datasetVersionRefs.find? (fun ref => ref.id == datasetId) with
  | none => .error { code := "not_found", message := "数据集不在成果包版本中",
                         fields := [("dataset_id", .str (uuidText datasetId))] }
  | some ref =>
    .ok (publishedDerived latest actor ws datasetId
      ((versionNumber.filter (fun n => n != 0)).getD ref.versionNumber))

/-- `new_workspace_from_result`: the rows it inserts for the workspace, which has the next free key. -/
def newWorkspaceFromResult (s : Sys) (actor : UserId) (r : ResultId) : Except AppError (List WorkspaceEvidenceRef) := do
  let latest ← s.requireLatest actor r
  .ok (latest.refs.datasetVersionRefs.map (fun ref =>
    publishedDerived latest actor s.timeline.db.workspaces.length ref.id ref.versionNumber))

namespace Reuse

/-! ## The system -/

/-- Publication, the evidence references taken from results, and what the readers have been answered. -/
structure State where
  sys : Sys := {}
  evidence : List WorkspaceEvidenceRef := []
  answers : List ObjectDetail := []

/-- The calls on a result. -/
inductive Call where
  | getResultInternalObject (objectType : String) (id : ProductId)
  | addToWorkspace (ws : WorkspaceId) (datasetId : ProductId) (versionNumber : Option Int)
  | newWorkspaceFromResult (dept : DeptId)

/-- The steps of the system. -/
inductive Action where
  | publication (a : Publication.Action)
  | call (actor : UserId) (r : ResultId) (c : Call)

/-- One step of a call. A reference is inserted by whom the policy shows its workspace, and a workspace by whom it
shows the department. -/
def Call.step (s : State) (actor : UserId) (r : ResultId) : Call → Option State
  | .getResultInternalObject objectType id =>
    (Publication.getResultInternalObject s.sys actor r objectType id).toOption.map (fun detail =>
      { s with answers := s.answers ++ [detail] })
  | .addToWorkspace ws datasetId versionNumber =>
    if s.sys.sees actor ws then
      (Publication.addToWorkspace s.sys actor r ws datasetId versionNumber).toOption.map (fun row =>
        { s with evidence := s.evidence ++ [row] })
    else none
  | .newWorkspaceFromResult dept =>
    if s.sys.visible actor dept then
      (Publication.newWorkspaceFromResult s.sys actor r).toOption.bind (fun rows =>
        (Publication.step s.sys (.timeline (.request (.createWorkspace actor dept)))).map (fun sys =>
          { s with sys := sys, evidence := s.evidence ++ rows }))
    else none

/-- One step. -/
def step (s : State) : Action → Option State
  | .publication a => (Publication.step s.sys a).map (fun sys => { s with sys := sys })
  | .call actor r c => c.step s actor r

/-- The system before its first call. -/
def init : State := {}

end Reuse

/-! ## Product versions -/

/-- No version of a product and no reference to one has the number 0. -/
structure Counted (s : Sys) : Prop where
  products : ∀ (kind : ProductKind) (id : ProductId) (p : Product) (v : ProductVersion),
    (s.products kind)[id]?.join = some p → p.version = some v → v.versionNumber ≠ 0
  refs : ∀ v ∈ s.versions, ∀ (kind : ProductKind), ∀ ref ∈ v.refs.of kind, ref.versionNumber ≠ 0

section Counted

variable {s s' : Sys} {a : Action} {actor : UserId} {ws : WorkspaceId}

theorem collectProduct_counted {kind : ProductKind} {refs refs' : ProductRefCollection} {id : ProductId}
    (hs : Counted s) (hrefs : ∀ (k : ProductKind), ∀ ref ∈ refs.of k, ref.versionNumber ≠ 0)
    (h : collectProduct s actor ws kind refs id = .ok refs') :
    ∀ (k : ProductKind), ∀ ref ∈ refs'.of k, ref.versionNumber ≠ 0 := by
  unfold collectProduct at h
  cases hp : s.getProduct actor ws kind id with
  | none => simp [hp] at h
  | some p =>
    simp only [hp] at h
    split at h
    · cases hv : p.version with
      | none => simp [hv] at h
      | some v =>
        simp only [hv] at h
        obtain rfl := Except.ok.inj h
        have hnumber := hs.products kind id p v (getProduct_some hp).1 hv
        intro k ref href
        -- the sources of the product are no references
        have hold : ref ∈ refs.of k ∨ ref.versionNumber = v.versionNumber := by
          cases k <;> cases kind <;>
            simp only [ProductRefCollection.of, ProductRefCollection.addSources, ProductRefCollection.addRef,
              List.mem_append, List.mem_singleton] at href ⊢ <;>
            first
              | exact .inl href
              | exact href.imp_right (fun hnew => by rw [hnew])
        rcases hold with hold | hnew
        · exact hrefs k ref hold
        · omega
    · cases h

theorem collectLoop_counted {kind : ProductKind} {ids : List ProductId} {refs refs' : ProductRefCollection}
    (hs : Counted s) (hrefs : ∀ (k : ProductKind), ∀ ref ∈ refs.of k, ref.versionNumber ≠ 0)
    (h : ids.foldlM (collectProduct s actor ws kind) refs = .ok refs') :
    ∀ (k : ProductKind), ∀ ref ∈ refs'.of k, ref.versionNumber ≠ 0 := by
  induction ids generalizing refs with
  | nil =>
    obtain rfl := Except.ok.inj h
    exact hrefs
  | cons id ids ih =>
    rw [List.foldlM_cons] at h
    obtain ⟨refs₁, hfirst, hrest⟩ := bind_ok_iff.mp h
    exact ih (collectProduct_counted hs hrefs hfirst) hrest

theorem prepare_counted {req : PublishRequest} {refs : ProductRefCollection} {envelope : PermissionEnvelope}
    (hs : Counted s) (h : prepare s actor ws req = .ok (refs, envelope)) :
    ∀ (k : ProductKind), ∀ ref ∈ refs.of k, ref.versionNumber ≠ 0 := by
  obtain ⟨refs', hcollect, h⟩ := bind_ok_iff.mp h
  have hrefs : refs' = refs := by
    split at h
    · cases h
    · obtain ⟨_, -, h⟩ := bind_ok_iff.mp h
      exact (Prod.mk.inj (Except.ok.inj h)).1
  subst hrefs
  obtain ⟨refs₁, hdatasets, h⟩ := bind_ok_iff.mp hcollect
  obtain ⟨refs₂, hviews, hinsights⟩ := bind_ok_iff.mp h
  have hnone : ∀ (k : ProductKind), ∀ ref ∈ ({} : ProductRefCollection).of k, ref.versionNumber ≠ 0 := by
    intro k ref href
    cases k <;> exact absurd href List.not_mem_nil
  exact collectLoop_counted hs (collectLoop_counted hs (collectLoop_counted hs hnone hdatasets) hviews) hinsights

theorem counted_init : Counted Publication.init := by
  refine ⟨fun kind id p v hp => ?_, List.forall_mem_nil _⟩
  cases kind <;> cases hp

theorem Counted.of_rows (hs : Counted s)
    (hproducts : ∀ (kind : ProductKind) (id : ProductId) (p : Product), (s'.products kind)[id]?.join = some p →
      (s.products kind)[id]?.join = some p ∨ ∀ v, p.version = some v → v.versionNumber ≠ 0)
    (hversions : ∀ v' ∈ s'.versions, (∃ v ∈ s.versions, v'.refs = v.refs) ∨
      ∀ (k : ProductKind), ∀ ref ∈ v'.refs.of k, ref.versionNumber ≠ 0) : Counted s' where
  products kind id p v hp hv := by
    rcases hproducts kind id p hp with hold | hnew
    · exact hs.products kind id p v hold hv
    · exact hnew v hv
  refs v' hv' := by
    rcases hversions v' hv' with ⟨v, hv, hsame⟩ | hnew
    · intro k ref href
      rw [hsame] at href
      exact hs.refs v hv k ref href
    · exact hnew

theorem Counted.of_versions (hs : Counted s) (hproducts : ∀ kind, s'.products kind = s.products kind)
    (hversions : ∀ v' ∈ s'.versions, (∃ v ∈ s.versions, v'.refs = v.refs) ∨
      ∀ (k : ProductKind), ∀ ref ∈ v'.refs.of k, ref.versionNumber ≠ 0) : Counted s' :=
  hs.of_rows (fun kind id p hp => .inl (by rw [← hproducts kind]; exact hp)) hversions

theorem Counted.of_products (actor : UserId) (ws : WorkspaceId) (hs : Counted s) (hversions : s'.versions = s.versions)
    (hproducts : ∀ kind, s'.products kind = s.products kind ∨
      (∃ p, s'.products kind = s.products kind ++ [some p] ∧ ∀ v, p.version = some v → v.versionNumber ≠ 0) ∨
      ∃ id, s'.products kind = s.remove actor ws (s.products kind) id) : Counted s' := by
  refine hs.of_rows (fun kind id p hp => ?_) (fun v hv => .inl ⟨v, hversions ▸ hv, rfl⟩)
  rcases hproducts kind with hsame | ⟨new, hnew, hnumber⟩ | ⟨i, hremoved⟩
  · exact .inl (hsame ▸ hp)
  · rw [hnew, List.getElem?_append] at hp
    split at hp
    · exact .inl hp
    · obtain hrow := Option.join_eq_some_iff.mp hp
      obtain rfl := Option.some.inj (List.mem_singleton.mp (List.mem_of_getElem? hrow))
      exact .inr hnumber
  · rw [hremoved, Sys.remove, List.getElem?_modify] at hp
    obtain hrow := Option.join_eq_some_iff.mp hp
    obtain ⟨row, hold, hfilter⟩ := Option.map_eq_some_iff.mp hrow
    refine .inl ?_
    rw [hold, Option.join_some]
    split at hfilter
    · exact (Option.filter_eq_some_iff.mp hfilter).1
    · exact hfilter

theorem refs_update {is : List VersionId} {target : VersionStatus} {v' : ResearchResultVersion}
    (hv' : v' ∈ Table.update s.versions is (setVersionStatus target)) : ∃ v ∈ s.versions, v'.refs = v.refs := by
  obtain ⟨i, hi⟩ := List.mem_iff_getElem?.mp hv'
  rw [Table.getElem?_update] at hi
  obtain ⟨v, hv, rfl⟩ := Option.map_eq_some_iff.mp hi
  refine ⟨v, List.mem_of_getElem? hv, ?_⟩
  split
  · rcases (setVersionStatus target).apply_cases v with ⟨-, happly⟩ | ⟨-, happly⟩
    · rw [happly]
      rfl
    · rw [happly]
  · rfl

/-- **References stay counted.** -/
theorem counted_step (hs : Counted s) (h : Publication.step s a = some s') : Counted s' := by
  cases a with
  | createDataset actor ws artifact file name =>
    simp only [Publication.step] at h
    split at h
    · obtain ⟨run, -, h⟩ := bind_ok_iff.mp (Evaluation.ok_of_toOption h)
      split at h
      · split at h
        · obtain rfl := Except.ok.inj h
          refine hs.of_products actor ws rfl (fun kind => ?_)
          cases kind with
          | dataset => exact .inr (.inl ⟨_, rfl, fun v hv => by obtain rfl := Option.some.inj hv; exact Nat.one_ne_zero⟩)
          | _ => exact .inl rfl
        · cases h
      · cases h
    · cases h
  | createView actor ws artifact file name =>
    simp only [Publication.step] at h
    split at h
    · obtain ⟨run, -, h⟩ := bind_ok_iff.mp (Evaluation.ok_of_toOption h)
      obtain rfl := Except.ok.inj h
      refine hs.of_products actor ws rfl (fun kind => ?_)
      cases kind with
      | view => exact .inr (.inl ⟨_, rfl, fun v hv => by obtain rfl := Option.some.inj hv; exact Nat.one_ne_zero⟩)
      | _ => exact .inl rfl
    · cases h
  | createInsight actor ws candidate =>
    simp only [Publication.step] at h
    split at h
    · obtain rfl := Option.some.inj h
      refine hs.of_products actor ws rfl (fun kind => ?_)
      cases kind with
      | insight => exact .inr (.inl ⟨_, rfl, fun v hv => by obtain rfl := Option.some.inj hv; exact Nat.one_ne_zero⟩)
      | _ => exact .inl rfl
    · cases h
  | deleteProduct actor ws kind id =>
    obtain rfl := Option.some.inj h
    refine hs.of_products actor ws (by cases kind <;> rfl) (fun k => ?_)
    cases kind <;> cases k <;>
      first
        | exact .inl rfl
        | exact .inr (.inr ⟨id, rfl⟩)
  | publishConclusion actor ws name =>
    obtain ⟨-, rfl⟩ := publishConclusion_ok h
    refine hs.of_versions (fun kind => by cases kind <;> rfl) (fun v' hv' => ?_)
    rcases List.mem_append.mp hv' with hold | hnew
    · exact .inl ⟨v', hold, rfl⟩
    · rw [List.mem_singleton.mp hnew]
      refine .inr (fun k ref href => ?_)
      cases k <;> exact absurd href List.not_mem_nil
  | publishResult actor ws req =>
    obtain ⟨⟨refs, envelope⟩, hprepare, h⟩ := bind_ok_iff.mp (Evaluation.ok_of_toOption h)
    obtain ⟨_, -, h⟩ := bind_ok_iff.mp h
    obtain rfl := Except.ok.inj h
    refine hs.of_versions (fun kind => by cases kind <;> rfl) (fun v' hv' => ?_)
    rcases List.mem_append.mp hv' with hold | hnew
    · exact .inl ⟨v', hold, rfl⟩
    · rw [List.mem_singleton.mp hnew]
      exact .inr (prepare_counted hs hprepare)
  | publishNewVersion actor r ws req =>
    obtain ⟨result, -, h⟩ := bind_ok_iff.mp (Evaluation.ok_of_toOption h)
    obtain ⟨⟨refs, envelope⟩, hprepare, h⟩ := bind_ok_iff.mp h
    obtain ⟨_, -, h⟩ := bind_ok_iff.mp h
    obtain rfl := Except.ok.inj h
    refine hs.of_versions (fun kind => by cases kind <;> rfl) (fun v' hv' => ?_)
    rcases List.mem_append.mp hv' with hold | hnew
    · exact .inl (refs_update hold)
    · rw [List.mem_singleton.mp hnew]
      exact .inr (prepare_counted hs hprepare)
  | updateAcl actor r change =>
    obtain ⟨result, revisions, -, -, -, rfl⟩ := updateAcl_ok (Evaluation.ok_of_toOption h)
    exact hs.of_versions (fun kind => by cases kind <;> rfl) (fun v hv => .inl ⟨v, hv, rfl⟩)
  | withdrawResult actor r versionNumber =>
    rcases withdrawResult_ok (Evaluation.ok_of_toOption h) with ⟨n, i, v, -, -, -, -, rfl⟩ | ⟨-, rfl⟩
    · exact hs.of_versions (fun kind => by cases kind <;> rfl) (fun v hv => .inl (refs_update hv))
    · refine hs.of_versions (fun kind => by cases kind <;> rfl) (fun v' hv' => ?_)
      obtain ⟨v, hv, rfl⟩ := List.mem_map.mp hv'
      refine .inl ⟨v, hv, ?_⟩
      split
      · rfl
      · rfl
  | timeline a | freeze ws actor dept refs =>
    simp only [Publication.step] at h
    split at h
    · cases h
    · obtain ⟨t, -, rfl⟩ := Option.map_eq_some_iff.mp h
      exact hs.of_versions (fun kind => by cases kind <;> rfl) (fun v hv => .inl ⟨v, hv, rfl⟩)
  | directory visible =>
    obtain rfl := Option.some.inj h
    exact hs.of_versions (fun kind => by cases kind <;> rfl) (fun v hv => .inl ⟨v, hv, rfl⟩)

end Counted

/-! ## What is reached -/

/-- A product version, with its number as the text a reference is stored with. -/
structure Item where
  kind : ProductKind
  id : ProductId
  version : String

def ObjectDetail.item (d : ObjectDetail) : Item := ⟨d.objectType, d.id, toString (d.version.versionNumber : Int)⟩

def WorkspaceEvidenceRef.item (row : WorkspaceEvidenceRef) : Item := ⟨.dataset, row.sourceId, row.sourceVersion⟩

/-- The version refers to the item. -/
def ProductRefCollection.Refers (refs : ProductRefCollection) (item : Item) : Prop :=
  ∃ ref ∈ refs.of item.kind, ref.id = item.id ∧ toString (ref.versionNumber : Int) = item.version

section Latest

variable {s : Sys} {actor : UserId} {r : ResultId} {v : ResearchResultVersion}

theorem latestVersion_some (h : s.latestVersion r = some v) : v ∈ s.versions ∧ v.resultId = r := by
  obtain ⟨i, hi, hv⟩ := Option.bind_eq_some_iff.mp h
  obtain ⟨w, hw, hid⟩ := getLatestVersion_some hi
  obtain rfl := Option.some.inj (hw.symm.trans hv)
  exact ⟨List.mem_of_getElem? hv, hid⟩

theorem requireLatest_ok (h : s.requireLatest actor r = .ok v) : s.shows actor r ∧ s.latestVersion r = some v := by
  unfold Sys.requireLatest at h
  cases hr : s.getResult actor r with
  | none => simp [hr] at h
  | some result =>
    simp only [hr] at h
    split at h
    · next hvisible =>
        cases hv : s.latestVersion r with
        | none => simp [hv] at h
        | some w =>
          simp only [hv] at h
          exact ⟨⟨result, hr, hvisible⟩, by rw [Except.ok.inj h]⟩
    · cases h

/-- An active version of the result refers to the item exactly if the latest one is active and does. -/
theorem offered_iff (hs : Sound s) (hlatest : s.latestVersion r = some v) (item : Item) :
    (∃ w ∈ s.versions, w.resultId = r ∧ w.status = .active ∧ w.refs.Refers item) ↔
      v.status = .active ∧ v.refs.Refers item := by
  constructor
  · rintro ⟨w, hw, rfl, hactive, hrefers⟩
    obtain ⟨i, hi⟩ := List.mem_iff_getElem?.mp hw
    have hfound := getLatestVersion_of_active hs.versions hi hactive
    have hsame : s.latestVersion w.resultId = some w := by rw [Sys.latestVersion, hfound, Option.bind_some, hi]
    obtain rfl := Option.some.inj (hsame.symm.trans hlatest)
    exact ⟨hactive, hrefers⟩
  · rintro ⟨hactive, hrefers⟩
    obtain ⟨hv, hid⟩ := latestVersion_some hlatest
    exact ⟨v, hv, hid, hactive, hrefers⟩

end Latest

theorem getDetail_ok {s : Sys} {actor : UserId} {kind : ProductKind} {id : ProductId} {n : Nat}
    {detail : ObjectDetail} (h : getDetail s actor kind id n = .ok detail) :
    detail.item = ⟨kind, id, toString (n : Int)⟩ := by
  unfold getDetail at h
  dsimp only at h
  split at h
  · cases h
  · next p hp =>
      split at h
      · cases h
      · next v hv =>
          obtain rfl := Except.ok.inj h
          have hnumber := eq_of_beq (Option.filter_eq_some_iff.mp hv).2
          rw [ObjectDetail.item, hnumber]

theorem natRepr_injective {m n : Nat} (h : m.repr = n.repr) : m = n := by
  have hdigits := congrArg String.toList h
  rw [Nat.toList_repr, Nat.toList_repr] at hdigits
  rw [← Nat.ofDigitChars_ten_toDigits (n := m), hdigits, Nat.ofDigitChars_ten_toDigits]

theorem eq_of_toString_natCast {k : Int} {n : Nat} (h : toString (n : Int) = toString k) : (n : Int) = k := by
  rw [Int.toString_eq_repr, Int.toString_eq_repr, Int.repr_eq_if, Int.repr_eq_if, if_pos (Int.natCast_nonneg n),
    Int.toNat_natCast] at h
  split at h
  · next hk =>
      have hsame := natRepr_injective h
      omega
  · -- a sign is no digit
    have hsign : '-' ∈ Nat.toDigits 10 n := by
      rw [← Nat.toList_repr, h]
      simp
    have hdigit := Nat.isDigit_of_mem_toDigits (by decide) (by decide) hsign
    exact absurd hdigit (by decide)

namespace Reuse

/-- The items a step answers, or takes into a workspace. -/
def reached (u : Transition State Action) : List Item :=
  (u.post.answers.drop u.pre.answers.length).map ObjectDetail.item ++
    (u.post.evidence.drop u.pre.evidence.length).map WorkspaceEvidenceRef.item

/-- Every item a step reaches is one that an active version refers to, of the result that is asked for and that the
caller may read. -/
def Exact (u : Transition State Action) : Prop :=
  ∀ item ∈ reached u, ∃ actor r c, u.act = .call actor r c ∧ u.pre.sys.shows actor r ∧
    ∃ v ∈ u.pre.sys.versions, v.resultId = r ∧ v.status = .active ∧ v.refs.Refers item

/-- The call asks the latest version for what it offers. -/
def Call.Fits (latest : ResearchResultVersion) : Call → Prop
  | .getResultInternalObject _ _ => latest.status = .active
  | .addToWorkspace _ datasetId versionNumber =>
    latest.status = .active ∧ ∀ n ∈ versionNumber, n ≠ 0 →
      ∃ ref ∈ latest.refs.datasetVersionRefs, ref.id = datasetId ∧ (ref.versionNumber : Int) = n
  | .newWorkspaceFromResult _ => latest.refs.datasetVersionRefs ≠ [] → latest.status = .active

/-- The same of a step. -/
def Action.Fits (s : State) : Action → Prop
  | .publication _ => True
  | .call _ r c => ∀ latest ∈ s.sys.latestVersion r, c.Fits latest

section Steps

variable {s s' : State} {actor : UserId} {r : ResultId}

/-- Exactness of a call, read off the latest version. -/
theorem exact_call_iff (hs : Sound s.sys) {c : Call} {v : ResearchResultVersion}
    (hlatest : s.sys.requireLatest actor r = .ok v) :
    Exact ⟨s, .call actor r c, s'⟩ ↔
      ∀ item ∈ reached ⟨s, .call actor r c, s'⟩, v.status = .active ∧ v.refs.Refers item := by
  obtain ⟨hshows, hv⟩ := requireLatest_ok hlatest
  refine forall₂_congr (fun item _ => ?_)
  rw [← offered_iff hs hv item]
  constructor
  · rintro ⟨actor', r', c', heq, -, hoffered⟩
    obtain ⟨rfl, rfl, rfl⟩ := Action.call.inj heq
    exact hoffered
  · intro hoffered
    exact ⟨actor, r, c, rfl, hshows, hoffered⟩

/-- **Opening a product.** -/
theorem exact_internalObject (hs : Sound s.sys) (hc : Counted s.sys) {objectType : String} {id : ProductId}
    (h : (Call.getResultInternalObject objectType id).step s actor r = some s') :
    Exact ⟨s, .call actor r (.getResultInternalObject objectType id), s'⟩ ↔
      Action.Fits s (.call actor r (.getResultInternalObject objectType id)) := by
  obtain ⟨detail, hdetail, rfl⟩ := Option.map_eq_some_iff.mp h
  obtain ⟨v, hlatest, hdetail⟩ := bind_ok_iff.mp (Evaluation.ok_of_toOption hdetail)
  obtain ⟨-, hv⟩ := requireLatest_ok hlatest
  have hrefers : v.refs.Refers detail.item := by
    split at hdetail
    · cases hdetail
    · next kind hkind =>
        split at hdetail
        · cases hdetail
        · next ref href =>
            have hmem := List.mem_of_find?_eq_some href
            have hid := List.find?_some href
            rw [if_neg (hc.refs v (latestVersion_some hv).1 kind ref hmem)] at hdetail
            rw [getDetail_ok hdetail]
            exact ⟨ref, hmem, eq_of_beq hid, rfl⟩
  rw [exact_call_iff hs hlatest]
  simp [reached, Action.Fits, Call.Fits, hv, hrefers]

/-- **Taking a dataset.** -/
theorem exact_addToWorkspace (hs : Sound s.sys) {ws : WorkspaceId} {id : ProductId} {versionNumber : Option Int}
    (h : (Call.addToWorkspace ws id versionNumber).step s actor r = some s') :
    Exact ⟨s, .call actor r (.addToWorkspace ws id versionNumber), s'⟩ ↔
      Action.Fits s (.call actor r (.addToWorkspace ws id versionNumber)) := by
  simp only [Call.step] at h
  split at h
  · obtain ⟨row, hrow, rfl⟩ := Option.map_eq_some_iff.mp h
    obtain ⟨v, hlatest, hrow⟩ := bind_ok_iff.mp (Evaluation.ok_of_toOption hrow)
    obtain ⟨-, hv⟩ := requireLatest_ok hlatest
    split at hrow
    · cases hrow
    · next ref href =>
        have hmem := List.mem_of_find?_eq_some href
        have hid := List.find?_some href
        obtain rfl := Except.ok.inj hrow
        have hreached : v.refs.Refers ⟨.dataset, id, toString ((versionNumber.filter (fun n => n != 0)).getD
            (ref.versionNumber : Int))⟩ ↔
            ∀ n ∈ versionNumber, n ≠ 0 →
              ∃ ref ∈ v.refs.datasetVersionRefs, ref.id = id ∧ (ref.versionNumber : Int) = n := by
          cases versionNumber with
          | none => simpa using ⟨ref, hmem, eq_of_beq hid, rfl⟩
          | some n =>
            by_cases hn : n = 0
            · simpa [hn] using ⟨ref, hmem, eq_of_beq hid, rfl⟩
            · -- the number the caller gives is the one that is stored
              simp only [Option.filter, bne_iff_ne, ne_eq, hn, not_false_eq_true, if_true, Option.getD_some,
                Option.mem_def, Option.some.injEq, forall_eq', true_implies]
              constructor
              · rintro ⟨ref', hmem', hid', htext⟩
                exact ⟨ref', hmem', hid', eq_of_toString_natCast htext⟩
              · rintro ⟨ref', hmem', hid', rfl⟩
                exact ⟨ref', hmem', hid', rfl⟩
        rw [exact_call_iff hs hlatest]
        simp only [reached, List.drop_length, List.drop_left, List.map_nil, List.nil_append, List.map_cons,
          List.forall_mem_singleton, Action.Fits, Call.Fits, hv, Option.mem_def, Option.some.injEq, forall_eq']
        exact and_congr_right (fun _ => hreached)
  · cases h

/-- **A workspace of what a result publishes.** -/
theorem exact_newWorkspace (hs : Sound s.sys) {dept : DeptId}
    (h : (Call.newWorkspaceFromResult dept).step s actor r = some s') :
    Exact ⟨s, .call actor r (.newWorkspaceFromResult dept), s'⟩ ↔
      Action.Fits s (.call actor r (.newWorkspaceFromResult dept)) := by
  simp only [Call.step] at h
  split at h
  · obtain ⟨rows, hrows, h⟩ := Option.bind_eq_some_iff.mp h
    obtain ⟨sys, -, rfl⟩ := Option.map_eq_some_iff.mp h
    obtain ⟨v, hlatest, hrows⟩ := bind_ok_iff.mp (Evaluation.ok_of_toOption hrows)
    obtain ⟨-, hv⟩ := requireLatest_ok hlatest
    obtain rfl := Except.ok.inj hrows
    rw [exact_call_iff hs hlatest]
    simp only [reached, List.drop_length, List.drop_left, List.map_nil, List.nil_append, List.map_map,
      List.forall_mem_map, Action.Fits, Call.Fits, hv, Option.mem_def, Option.some.injEq, forall_eq']
    constructor
    · intro hall hsome
      obtain ⟨ref, href⟩ := List.exists_mem_of_ne_nil _ hsome
      exact (hall ref href).1
    · intro hactive ref href
      exact ⟨hactive (List.ne_nil_of_mem href), ref, href, rfl, rfl⟩
  · cases h

theorem exact_publication {a : Publication.Action} (h : step s (.publication a) = some s') :
    Exact ⟨s, .publication a, s'⟩ := by
  obtain ⟨sys, -, rfl⟩ := Option.map_eq_some_iff.mp h
  intro item hitem
  simp [reached] at hitem

theorem sys_step {a : Action} (h : step s a = some s') :
    s'.sys = s.sys ∨ ∃ a', Publication.step s.sys a' = some s'.sys := by
  cases a with
  | publication a =>
    obtain ⟨sys, hsys, rfl⟩ := Option.map_eq_some_iff.mp h
    exact .inr ⟨a, hsys⟩
  | call actor r c =>
    cases c with
    | getResultInternalObject objectType id =>
      obtain ⟨detail, -, rfl⟩ := Option.map_eq_some_iff.mp h
      exact .inl rfl
    | addToWorkspace ws id versionNumber =>
      simp only [step, Call.step] at h
      split at h
      · obtain ⟨row, -, rfl⟩ := Option.map_eq_some_iff.mp h
        exact .inl rfl
      · cases h
    | newWorkspaceFromResult dept =>
      simp only [step, Call.step] at h
      split at h
      · obtain ⟨rows, -, h⟩ := Option.bind_eq_some_iff.mp h
        obtain ⟨sys, hsys, rfl⟩ := Option.map_eq_some_iff.mp h
        exact .inr ⟨_, hsys⟩
      · cases h

end Steps

/-! ## Runs -/

/-- **A step is exact if and only if its call fits the latest version.** -/
theorem exact_step_iff {s s' : State} {a : Action} (hs : Sound s.sys) (hc : Counted s.sys) (h : step s a = some s') :
    Exact ⟨s, a, s'⟩ ↔ a.Fits s := by
  cases a with
  | publication a => exact iff_of_true (exact_publication h) trivial
  | call actor r c =>
    cases c with
    | getResultInternalObject objectType id => exact exact_internalObject hs hc h
    | addToWorkspace ws id versionNumber => exact exact_addToWorkspace hs h
    | newWorkspaceFromResult dept => exact exact_newWorkspace hs h

theorem kept_step {s s' : State} {a : Action} (h : step s a = some s') (hs : Sound s.sys ∧ Counted s.sys) :
    Sound s'.sys ∧ Counted s'.sys := by
  rcases sys_step h with hsame | ⟨a', hstep⟩
  · rw [hsame]
    exact hs
  · exact ⟨sound_step hs.1 hstep, counted_step hs.2 hstep⟩

/-- **Reuse is exact as long as the calls fit.** For every history of the timeline, of publication and of calls on
results, by any users: each call reaches only what an active version refers to, of the result that is asked for
and that the caller may read, if and only if each finds the latest version of its result active (one that begins
a workspace may also find it without datasets) and names no number of a dataset that this version does not refer
to. -/
theorem exact_iff (acts : List Action) :
    (∀ u ∈ play step init acts, Exact u) ↔ ∀ u ∈ play step init acts, u.act.Fits u.pre := by
  have hrun : Run step init _ _ := play_run init acts
  refine hrun.forall_congr (I := fun s => Sound s.sys ∧ Counted s.sys) (fun h hs => ?_) ⟨sound_init, counted_init⟩
  exact ⟨exact_step_iff hs.1 hs.2 h, fun _ => kept_step h hs⟩

/-- The owner opens the view after its version was withdrawn. -/
def openedWithdrawn : List Action :=
  withdrawnVersion.map Action.publication ++ [.call 0 0 (.getResultInternalObject "view" 0)]

theorem step_dispatch (e : Nat) (s : State) : step s (.publication (.timeline (.dispatch e true))) =
    (Research.step s.sys.timeline (.dispatch e true)).map
      (fun t => { s with sys := { s.sys with timeline := t } }) := by
  rw [step, Publication.step_dispatch, Option.map_map]
  rfl

theorem play_openedWithdrawn : play step init openedWithdrawn =
    Research.playFinished step (fun s => s.sys.timeline) (fun s t => { s with sys := { s.sys with timeline := t } }) init
      (beforePlan.map .publication) (.publication (.timeline (.dispatch 1 true))) (beforeRun.map .publication)
      (.publication (.timeline (.dispatch 2 true))) (openedWithdrawn.drop 13) :=
  Research.play_deliveries (beforePlan.map .publication) (beforeRun.map .publication) (openedWithdrawn.drop 13)
    (Research.play_delivery (step_dispatch 1) rfl rfl _) rfl
    (Research.play_delivery (step_dispatch 2) rfl rfl _)

/-- Reuse is not exact in general: a view is opened although no version of its result is active. -/
theorem not_exact : ¬ ∀ acts : List Action, ∀ u ∈ play step init acts, Exact u := by
  intro h
  have hopened : ∃ u ∈ play step init openedWithdrawn, ((reached u).head?.map Item.id).isSome = true ∧
      ∀ v ∈ u.pre.sys.versions, v.status ≠ .active := by
    rw [play_openedWithdrawn]
    decide +kernel
  obtain ⟨u, hu, hitem, hnone⟩ := hopened
  obtain ⟨id, hid⟩ := Option.isSome_iff_exists.mp hitem
  obtain ⟨item, hitem, -⟩ := Option.map_eq_some_iff.mp hid
  obtain ⟨actor, r, c, -, -, v, hv, -, hactive, -⟩ := h openedWithdrawn u hu item (List.mem_of_head? hitem)
  exact hnone v hv hactive

end Reuse

end Irip.Publication
