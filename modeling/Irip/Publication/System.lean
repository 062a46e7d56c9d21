import Irip.Publication.Service
import Irip.Research.Effects

/-!
# `Publication.System` — publication as a transition system

The timeline goes on underneath, users move between departments, and whoever may calls the product and the
publication service. A call that raises, or that a row policy refuses, is no step.
-/

namespace Irip.Publication

open Research (UserId DeptId WorkspaceId SnapshotId RunId)
open Evaluation (bind_ok_iff)
open Runs

/-! ## The system -/

/-- The steps of the system. -/
inductive Action where
  | timeline (a : Research.Action)
  | freeze (ws : WorkspaceId) (actor : UserId) (dept : DeptId) (refs : List EvidenceRef)
  | directory (visible : UserId → DeptId → Bool) -- users or departments move
  | createDataset (actor : UserId) (ws : WorkspaceId) (artifact : Nat) (file : ArtifactFile) (name : String)
  | createView (actor : UserId) (ws : WorkspaceId) (artifact : Nat) (file : ArtifactFile) (name : String)
  | createInsight (actor : UserId) (ws : WorkspaceId) (candidate : InsightCandidate)
  | deleteProduct (actor : UserId) (ws : WorkspaceId) (kind : ProductKind) (id : ProductId)
  | publishConclusion (actor : UserId) (ws : WorkspaceId) (name : String)
  | publishResult (actor : UserId) (ws : WorkspaceId) (req : PublishRequest)
  | publishNewVersion (actor : UserId) (r : ResultId) (ws : WorkspaceId) (req : PublishRequest)
  | updateAcl (actor : UserId) (r : ResultId) (change : AclChange)
  | withdrawResult (actor : UserId) (r : ResultId) (versionNumber : Option Nat)

/-- `freeze_snapshot` of the timeline. -/
def isFreeze : Research.Action → Bool
  | .request (.freezeSnapshot _ _ _) => true
  | _ => false

/-- One step. A row of a workspace is inserted by whom the policy shows the workspace. -/
def step (s : Sys) : Action → Option Sys
  | .timeline a =>
    if isFreeze a then none else (Research.step s.timeline a).map (fun t => { s with timeline := t })
  | .freeze ws actor dept refs =>
    -- without an active reference the service raises
    if refs.isEmpty then none
    else (Research.step s.timeline (.request (.freezeSnapshot ws actor dept))).map (fun t =>
      { s with timeline := t, envelopes := s.envelopes ++ [s.newEnvelope ws refs] })
  | .directory visible => some { s with visible := visible }
  | .createDataset actor ws artifact file name =>
    if s.sees actor ws then (createDataset s actor ws artifact file name).toOption else none
  | .createView actor ws artifact file name =>
    if s.sees actor ws then (createView s actor ws artifact file name).toOption else none
  | .createInsight actor ws candidate =>
    if s.sees actor ws then some (createInsight s actor ws candidate) else none
  | .deleteProduct actor ws kind id => some (deleteProduct s actor ws kind id)
  | .publishConclusion actor ws name =>
    if s.sees actor ws then some (publishConclusion s actor ws name) else none
  | .publishResult actor ws req => (publishResult s actor ws req).toOption
  | .publishNewVersion actor r ws req => (publishNewVersion s actor r ws req).toOption
  | .updateAcl actor r change => (updateAcl s actor r change).toOption
  | .withdrawResult actor r versionNumber => (withdrawResult s actor r versionNumber).toOption

/-- The system before its first call. -/
def init : Sys := {}

/-- The calls that write results or versions. -/
def Action.writesResults : Action → Bool
  | .publishConclusion _ _ _ => true
  | .publishResult _ _ _ => true
  | .publishNewVersion _ _ _ _ => true
  | .updateAcl _ _ _ => true
  | .withdrawResult _ _ _ => true
  | _ => false

/-! ## What the calls do -/

/-- The products of one kind by their keys. -/
def Sys.named (s : Sys) (kind : ProductKind) (ids : List ProductId) : List Product :=
  ids.filterMap (fun id => (s.products kind)[id]?.join)

/-- The products a request names. -/
def Sys.requested (s : Sys) (req : PublishRequest) : List Product :=
  s.named .dataset req.datasetIds ++ s.named .view req.viewIds ++ s.named .insight req.insightIds

/-- The runs behind them. -/
def Sys.sourceRuns (s : Sys) (req : PublishRequest) : List RunId := (s.requested req).filterMap Product.sourceRunId

/-- The snapshots they name themselves. -/
def Sys.sourceSnapshots (s : Sys) (req : PublishRequest) : List SnapshotId :=
  (s.requested req).filterMap Product.sourceSnapshotId

section Calls

variable {s s' : Sys} {actor : UserId} {ws : WorkspaceId}

variable {kind : ProductKind} {req : PublishRequest}

theorem getProduct_some {id : ProductId} {p : Product} (h : s.getProduct actor ws kind id = some p) :
    (s.products kind)[id]?.join = some p ∧ s.sees actor ws = true := by
  obtain ⟨hrow, hguard⟩ := Option.filter_eq_some_iff.mp h
  simp only [Bool.and_eq_true, beq_iff_eq] at hguard
  exact ⟨hrow, hguard.1 ▸ hguard.2⟩

theorem collectProduct_ok {refs refs' : ProductRefCollection} {id : ProductId}
    (h : collectProduct s actor ws kind refs id = .ok refs') :
    ∃ p, (s.products kind)[id]?.join = some p ∧ s.sees actor ws = true ∧
      (∀ r, r ∈ refs'.analysisRunIds ↔ r ∈ refs.analysisRunIds ∨ p.sourceRunId = some r) ∧
      ∀ x, x ∈ refs'.evidenceSnapshotIds ↔ x ∈ refs.evidenceSnapshotIds ∨ p.sourceSnapshotId = some x := by
  unfold collectProduct at h
  cases hp : s.getProduct actor ws kind id with
  | none => simp [hp] at h
  | some p =>
    obtain ⟨hrow, hsees⟩ := getProduct_some hp
    simp only [hp] at h
    split at h
    · cases hv : p.version with
      | none => simp [hv] at h
      | some v =>
        simp only [hv] at h
        obtain rfl := Except.ok.inj h
        refine ⟨p, hrow, hsees, fun r => ?_, fun x => ?_⟩
        · cases kind <;> cases hrun : p.sourceRunId <;>
            simp [ProductRefCollection.addSources, ProductRefCollection.addRef, hrun, eq_comm, or_comm]
        · cases kind <;> cases hsnap : p.sourceSnapshotId <;>
            simp [ProductRefCollection.addSources, ProductRefCollection.addRef, hsnap, eq_comm, or_comm]
    · cases h

theorem collectLoop_ok {ids : List ProductId} {refs refs' : ProductRefCollection}
    (h : ids.foldlM (collectProduct s actor ws kind) refs = .ok refs') : (ids ≠ [] → s.sees actor ws = true) ∧
      (∀ r, r ∈ refs'.analysisRunIds ↔ r ∈ refs.analysisRunIds ∨
        r ∈ (s.named kind ids).filterMap Product.sourceRunId) ∧
      ∀ x, x ∈ refs'.evidenceSnapshotIds ↔ x ∈ refs.evidenceSnapshotIds ∨
        x ∈ (s.named kind ids).filterMap Product.sourceSnapshotId := by
  induction ids generalizing refs with
  | nil =>
    obtain rfl := Except.ok.inj h
    simp [Sys.named]
  | cons id ids ih =>
    rw [List.foldlM_cons] at h
    obtain ⟨refs₁, hfirst, hrest⟩ := bind_ok_iff.mp h
    obtain ⟨p, hrow, hsees, hruns, hsnapshots⟩ := collectProduct_ok hfirst
    obtain ⟨-, hruns', hsnapshots'⟩ := ih hrest
    have hnamed : s.named kind (id :: ids) = p :: s.named kind ids :=
      List.filterMap_cons_some (f := fun id => (s.products kind)[id]?.join) hrow
    refine ⟨fun _ => hsees, fun r => ?_, fun x => ?_⟩
    · rw [hruns', hruns, hnamed]
      cases hrun : p.sourceRunId <;> simp [hrun, eq_comm, or_assoc]
    · rw [hsnapshots', hsnapshots, hnamed]
      cases hsnap : p.sourceSnapshotId <;> simp [hsnap, eq_comm, or_assoc]

/-- **What is collected** is what the products name, and somebody who collects anything sees the workspace. -/
theorem collect_ok {refs : ProductRefCollection} (h : collectProductRefs s actor ws req = .ok refs) :
    (s.sees actor ws = true ∨ refs = {}) ∧ (∀ r, r ∈ refs.analysisRunIds ↔ r ∈ s.sourceRuns req) ∧
      ∀ x, x ∈ refs.evidenceSnapshotIds ↔ x ∈ s.sourceSnapshots req := by
  obtain ⟨refs₁, hdatasets, h⟩ := bind_ok_iff.mp h
  obtain ⟨refs₂, hviews, hinsights⟩ := bind_ok_iff.mp h
  obtain ⟨hsees₁, hruns₁, hsnapshots₁⟩ := collectLoop_ok hdatasets
  obtain ⟨hsees₂, hruns₂, hsnapshots₂⟩ := collectLoop_ok hviews
  obtain ⟨hsees₃, hruns₃, hsnapshots₃⟩ := collectLoop_ok hinsights
  refine ⟨?_, fun r => ?_, fun x => ?_⟩
  · by_cases hd : req.datasetIds = []
    · by_cases hv : req.viewIds = []
      · by_cases hi : req.insightIds = []
        · rw [hd] at hdatasets
          rw [hv] at hviews
          rw [hi] at hinsights
          obtain rfl := Except.ok.inj hdatasets
          obtain rfl := Except.ok.inj hviews
          exact .inr (Except.ok.inj hinsights).symm
        · exact .inl (hsees₃ hi)
      · exact .inl (hsees₂ hv)
    · exact .inl (hsees₁ hd)
  · rw [hruns₃, hruns₂, hruns₁]
    simp only [Sys.sourceRuns, Sys.requested, List.filterMap_append, List.mem_append, List.not_mem_nil, false_or]
  · rw [hsnapshots₃, hsnapshots₂, hsnapshots₁]
    simp only [Sys.sourceSnapshots, Sys.requested, List.filterMap_append, List.mem_append, List.not_mem_nil, false_or]

/-- What a publish call has found before it checks the ACL. -/
structure Prepared (s : Sys) (actor : UserId) (ws : WorkspaceId) (req : PublishRequest)
    (refs : ProductRefCollection) (envelope : PermissionEnvelope) : Prop where
  sees : s.sees actor ws = true
  runs : ∀ r, r ∈ refs.analysisRunIds ↔ r ∈ s.sourceRuns req
  snapshots : ∀ x, x ∈ refs.evidenceSnapshotIds ↔ x ∈ s.sourceSnapshots req
  envelope : envelope = PermissionEnvelopeCalculator.calculateEnvelope (s.getSnapshotEnvelope actor)
    refs.evidenceSnapshotIds

theorem prepare_ok {refs : ProductRefCollection} {envelope : PermissionEnvelope}
    (h : prepare s actor ws req = .ok (refs, envelope)) : Prepared s actor ws req refs envelope := by
  obtain ⟨refs', hcollect, h⟩ := bind_ok_iff.mp h
  split at h
  · cases h
  · next hsome =>
      obtain ⟨_, -, h⟩ := bind_ok_iff.mp h
      obtain ⟨rfl, rfl⟩ := Prod.mk.inj (Except.ok.inj h)
      obtain ⟨hsees, hruns, hsnapshots⟩ := collect_ok hcollect
      refine ⟨hsees.resolve_right ?_, hruns, hsnapshots, rfl⟩
      rintro rfl
      exact hsome rfl

theorem checkAcl_ok {acl : AclType} {userIds : List UserId} {envelope : PermissionEnvelope}
    {declassifies namesSources : Bool} {x : Unit}
    (h : checkAcl acl userIds envelope declassifies namesSources = .ok x) :
    declassifies = true ∨
      (PermissionEnvelopeCalculator.validateRequestedAcl acl userIds envelope).valid = true := by
  unfold checkAcl at h
  dsimp only at h
  split at h
  · next hguard => exact (Bool.or_eq_true_iff.mp hguard).symm
  · cases h

theorem publishResult_ok (h : publishResult s actor ws req = .ok s') :
    ∃ refs envelope revisions, Prepared s actor ws req refs envelope ∧
      (req.declassifies = true ∨ (PermissionEnvelopeCalculator.validateRequestedAcl req.requestedAcl
        req.explicitUserIds envelope).valid = true) ∧ s' = { s with
        results := s.results ++ [{ workspaceId := ws, ownerUserId := actor, name := req.title, currentVersion := 1,
                                     currentAclType := req.requestedAcl,
                                     currentExplicitUserIds := req.explicitUserIds }],
        versions := s.versions ++ [{ resultId := s.results.length, versionNumber := 1, title := req.title,
                                      refs := refs, publisher := actor,
                                      publishedPermissionEnvelope := some envelope }],
        revisions := revisions } := by
  obtain ⟨⟨refs, envelope⟩, hprepare, h⟩ := bind_ok_iff.mp h
  obtain ⟨_, hcheck, h⟩ := bind_ok_iff.mp h
  exact ⟨refs, envelope, _, prepare_ok hprepare, checkAcl_ok hcheck, (Except.ok.inj h).symm⟩

theorem requireOwnResult_ok {r : ResultId} {refused : String} {result : ResearchResult}
    (h : s.requireOwnResult actor r refused = .ok result) : s.results[r]? = some result ∧ result.ownerUserId = actor := by
  unfold Sys.requireOwnResult at h
  cases hr : s.results[r]? with
  | none => simp [hr] at h
  | some row =>
    simp only [hr] at h
    split at h
    · next howner =>
        obtain rfl := Except.ok.inj h
        exact ⟨rfl, howner⟩
    · split at h
      · cases h
      · cases h

theorem publishNewVersion_ok {r : ResultId} (h : publishNewVersion s actor r ws req = .ok s') :
    ∃ result refs envelope, s.results[r]? = some result ∧ result.ownerUserId = actor ∧
      Prepared s actor ws req refs envelope ∧
      (req.declassifies = true ∨ (PermissionEnvelopeCalculator.validateRequestedAcl req.requestedAcl
        req.explicitUserIds envelope).valid = true) ∧ s' = { s with
        results := Table.update s.results [r] (setCurrentVersion (result.currentVersion + 1)),
        versions := Table.update s.versions (s.activeLatest r) (setVersionStatus .superseded)
          ++ [{ resultId := r, versionNumber := result.currentVersion + 1, title := req.title, refs := refs,
                publisher := actor, publishedPermissionEnvelope := some envelope }] } := by
  obtain ⟨result, hresult, h⟩ := bind_ok_iff.mp h
  obtain ⟨⟨refs, envelope⟩, hprepare, h⟩ := bind_ok_iff.mp h
  obtain ⟨_, hcheck, h⟩ := bind_ok_iff.mp h
  obtain ⟨hrow, howner⟩ := requireOwnResult_ok hresult
  exact ⟨result, refs, envelope, hrow, howner, prepare_ok hprepare, checkAcl_ok hcheck, (Except.ok.inj h).symm⟩

theorem updateAcl_ok {r : ResultId} {change : AclChange} (h : updateAcl s actor r change = .ok s') :
    ∃ result revisions, s.results[r]? = some result ∧ result.ownerUserId = actor ∧
      (change.declassifies = true ∨ (PermissionEnvelopeCalculator.validateRequestedAcl change.aclType
        change.explicitUserIds (PermissionEnvelopeCalculator.calculateEnvelope (s.getSnapshotEnvelope actor)
          (s.recordedSnapshots r))).valid = true) ∧
      s' = { s with
        results := Table.update s.results [r] (setAcl change.aclType change.explicitUserIds),
        revisions := revisions } := by
  obtain ⟨result, hresult, h⟩ := bind_ok_iff.mp h
  obtain ⟨_, hcheck, h⟩ := bind_ok_iff.mp h
  obtain ⟨hrow, howner⟩ := requireOwnResult_ok hresult
  exact ⟨result, _, hrow, howner, checkAcl_ok hcheck, (Except.ok.inj h).symm⟩

end Calls

/-! ## Versions -/

/-- The versions of a result have numbers of their own up to the current one, and an active one has the largest. -/
structure Versioned (results : List ResearchResult) (versions : List ResearchResultVersion) : Prop where
  numbered : ∀ (i : VersionId) (v : ResearchResultVersion), versions[i]? = some v →
    ∃ result, results[v.resultId]? = some result ∧ v.versionNumber ≤ result.currentVersion
  unique : ∀ (i j : VersionId) (v w : ResearchResultVersion), versions[i]? = some v → versions[j]? = some w →
    v.resultId = w.resultId → v.versionNumber = w.versionNumber → i = j
  last : ∀ (i j : VersionId) (v w : ResearchResultVersion), versions[i]? = some v → versions[j]? = some w →
    v.resultId = w.resultId → v.status = .active → w.versionNumber ≤ v.versionNumber

section Versions

variable {results results' : List ResearchResult} {versions versions' : List ResearchResultVersion}

theorem Versioned.of_rows (h : Versioned results versions)
    (hresults : ∀ (r : ResultId) (result : ResearchResult), results[r]? = some result →
      ∃ result', results'[r]? = some result' ∧ result.currentVersion ≤ result'.currentVersion)
    (hversions : ∀ (i : VersionId) (v' : ResearchResultVersion), versions'[i]? = some v' →
      ∃ v, versions[i]? = some v ∧ v.resultId = v'.resultId ∧ v.versionNumber = v'.versionNumber ∧
        (v'.status = .active → v.status = .active)) : Versioned results' versions' where
  numbered i v' hv' := by
    obtain ⟨v, hv, hresult, hnumber, -⟩ := hversions i v' hv'
    obtain ⟨result, hrow, hle⟩ := h.numbered i v hv
    obtain ⟨result', hrow', hle'⟩ := hresults _ result hrow
    exact ⟨result', hresult ▸ hrow', by omega⟩
  unique i j v' w' hv' hw' hresult hnumber := by
    obtain ⟨v, hv, hvresult, hvnumber, -⟩ := hversions i v' hv'
    obtain ⟨w, hw, hwresult, hwnumber, -⟩ := hversions j w' hw'
    exact h.unique i j v w hv hw (hvresult.trans (hresult.trans hwresult.symm)) (by omega)
  last i j v' w' hv' hw' hresult hactive := by
    obtain ⟨v, hv, hvresult, hvnumber, hvactive⟩ := hversions i v' hv'
    obtain ⟨w, hw, hwresult, hwnumber, -⟩ := hversions j w' hw'
    have hle := h.last i j v w hv hw (hvresult.trans (hresult.trans hwresult.symm)) (hvactive hactive)
    omega

theorem Versioned.insert {new : ResearchResultVersion} {result : ResearchResult} (h : Versioned results versions)
    (hrow : results[new.resultId]? = some result) (hnumber : new.versionNumber ≤ result.currentVersion)
    (hothers : ∀ (i : VersionId) (v : ResearchResultVersion), versions[i]? = some v → v.resultId = new.resultId →
      v.versionNumber < new.versionNumber ∧ v.status ≠ .active) : Versioned results (versions ++ [new]) := by
  -- a row of the longer table is an old one or the new one
  have hcases : ∀ (i : VersionId) (v : ResearchResultVersion), (versions ++ [new])[i]? = some v →
      versions[i]? = some v ∨ versions[i]? = none ∧ i = versions.length ∧ v = new := by
    intro i v hv
    cases hold : versions[i]? with
    | none => exact .inr ⟨rfl, Table.eq_of_getElem?_insert hold hv⟩
    | some w =>
      rw [List.getElem?_append_left (List.getElem?_eq_some_iff.mp hold).1, hold] at hv
      exact .inl hv
  refine ⟨fun i v hv => ?_, fun i j v w hv hw hsame hnum => ?_, fun i j v w hv hw hsame hactive => ?_⟩
  · rcases hcases i v hv with hold | ⟨-, -, rfl⟩
    · exact h.numbered i v hold
    · exact ⟨result, hrow, hnumber⟩
  · rcases hcases i v hv with hvold | ⟨-, hi, hvnew⟩
    · rcases hcases j w hw with hwold | ⟨-, -, hwnew⟩
      · exact h.unique i j v w hvold hwold hsame hnum
      · have hlt := (hothers i v hvold (hwnew ▸ hsame)).1
        rw [hnum, hwnew] at hlt
        omega
    · rcases hcases j w hw with hwold | ⟨-, hj, -⟩
      · have hlt := (hothers j w hwold (hvnew ▸ hsame.symm)).1
        rw [← hnum, hvnew] at hlt
        omega
      · exact hi.trans hj.symm
  · rcases hcases i v hv with hvold | ⟨-, -, hvnew⟩
    · rcases hcases j w hw with hwold | ⟨-, -, hwnew⟩
      · exact h.last i j v w hvold hwold hsame hactive
      · exact absurd hactive (hothers i v hvold (hwnew ▸ hsame)).2
    · rcases hcases j w hw with hwold | ⟨-, -, hwnew⟩
      · rw [hvnew]
        exact Nat.le_of_lt (hothers j w hwold (hvnew ▸ hsame.symm)).1
      · rw [hvnew, hwnew]

/-- **The active version of a result is its latest.** -/
theorem getLatestVersion_of_active {s : Sys} {i : VersionId} {v : ResearchResultVersion}
    (h : Versioned s.results s.versions) (hv : s.versions[i]? = some v) (hactive : v.status = .active) :
    s.getLatestVersion v.resultId = some i := by
  have hlargest : ∀ w ∈ s.versions, w.resultId = v.resultId → w.versionNumber ≤ v.versionNumber := by
    intro w hw hsame
    obtain ⟨j, hj⟩ := List.mem_iff_getElem?.mp hw
    exact h.last i j v w hv hj hsame.symm hactive
  have hi : i ∈ List.range s.versions.length := List.mem_range.mpr (List.getElem?_eq_some_iff.mp hv).1
  unfold Sys.getLatestVersion
  cases hfound : (List.range s.versions.length).find? (fun i => s.versions[i]?.any (fun w =>
      w.resultId == v.resultId &&
        s.versions.all (fun x => !(x.resultId == v.resultId) || decide (x.versionNumber ≤ w.versionNumber)))) with
  | none =>
    have hnot := List.find?_eq_none.mp hfound i hi
    simp only [hv, Option.any_some, beq_self_eq_true, Bool.true_and, List.all_eq_true, Bool.or_eq_true,
      Bool.not_eq_true', beq_eq_false_iff_ne, decide_eq_true_eq] at hnot
    refine absurd (fun w hw => ?_) hnot
    by_cases hsame : w.resultId = v.resultId
    · exact .inr (hlargest w hw hsame)
    · exact .inl hsame
  | some j =>
    -- the version found is as large as the active one, so it is the active one
    have hj := List.find?_some hfound
    obtain ⟨w, hw, hguard⟩ := (Option.any_eq_true _ _).mp hj
    simp only [Bool.and_eq_true, beq_iff_eq, List.all_eq_true, Bool.or_eq_true, Bool.not_eq_true',
      beq_eq_false_iff_ne, decide_eq_true_eq] at hguard
    obtain ⟨hsame, hall⟩ := hguard
    have hge := (hall v (List.mem_of_getElem? hv)).resolve_left (fun hne => hne rfl)
    have hle := hlargest w (List.mem_of_getElem? hw) hsame
    rw [h.unique j i w v hw hv hsame (Nat.le_antisymm hle hge)]

end Versions

/-! ## The invariant -/

/-- A result is its workspace's owner's, and its versions are in order. -/
structure Sound (s : Sys) : Prop where
  owners : ∀ (r : ResultId) (result : ResearchResult), s.results[r]? = some result →
    ∃ w, s.timeline.db.workspaces[result.workspaceId]? = some w ∧ w.ownerUserId = result.ownerUserId
  versions : Versioned s.results s.versions

section Invariant

variable {s s' : Sys} {a : Action}

theorem sound_init : Sound init := by
  refine ⟨?_, ?_, ?_, ?_⟩
  · intro r result h
    cases h
  · intro i v h
    cases h
  · intro i j v w h
    cases h
  · intro i j v w h
    cases h

theorem Sound.of_same (hs : Sound s) (hresults : s'.results = s.results) (hversions : s'.versions = s.versions)
    (hworkspaces : ∀ (ws : WorkspaceId) (w : Research.Workspace), s.timeline.db.workspaces[ws]? = some w →
      s'.timeline.db.workspaces[ws]? = some w) : Sound s' := by
  refine ⟨fun r result hr => ?_, ?_⟩
  · rw [hresults] at hr
    obtain ⟨w, hw, howner⟩ := hs.owners r result hr
    exact ⟨w, hworkspaces _ w hw, howner⟩
  · rw [hresults, hversions]
    exact hs.versions

theorem Sound.publish (hs : Sound s) {actor : UserId} {ws : WorkspaceId} (hsees : s.sees actor ws = true)
    {result : ResearchResult} {v : ResearchResultVersion} (hws : result.workspaceId = ws)
    (howner : result.ownerUserId = actor) (hid : v.resultId = s.results.length)
    (hnumber : v.versionNumber ≤ result.currentVersion) (revisions : List ResultAclRevision) :
    Sound { s with results := s.results ++ [result], versions := s.versions ++ [v], revisions := revisions } := by
  have hlt : ∀ (r : ResultId) (row : ResearchResult), s.results[r]? = some row → r < s.results.length :=
    fun r row hr => (List.getElem?_eq_some_iff.mp hr).1
  constructor
  · intro r row hr
    cases hold : s.results[r]? with
    | some row' =>
      rw [List.getElem?_append_left (hlt r row' hold), hold] at hr
      obtain rfl := Option.some.inj hr
      exact hs.owners r row' hold
    | none =>
      obtain ⟨-, rfl⟩ := Table.eq_of_getElem?_insert hold hr
      obtain ⟨w, hw, hguard⟩ := (Option.any_eq_true _ _).mp hsees
      simp only [Bool.and_eq_true, beq_iff_eq] at hguard
      exact ⟨w, hws ▸ hw, hguard.1.trans howner.symm⟩
  · have hgrown : Versioned (s.results ++ [result]) s.versions := by
      refine hs.versions.of_rows (fun r row hr => ⟨row, ?_, Nat.le_refl _⟩) (fun i w hw => ⟨w, hw, rfl, rfl, id⟩)
      rw [List.getElem?_append_left (hlt r row hr), hr]
    have hrow : (s.results ++ [result])[v.resultId]? = some result := by
      rw [hid]
      exact List.getElem?_concat_length
    refine hgrown.insert hrow hnumber (fun i w hw hsame => ?_)
    -- the versions there are belong to older results
    obtain ⟨row, hrow, -⟩ := hs.versions.numbered i w hw
    have hold := hlt _ _ hrow
    rw [hsame, hid] at hold
    exact absurd hold (Nat.lt_irrefl _)

variable {r : ResultId} {u : Table.Update ResearchResult}

theorem owners_update (hs : Sound s)
    (hset : ∀ row, (u.set row).workspaceId = row.workspaceId ∧ (u.set row).ownerUserId = row.ownerUserId)
    {r' : ResultId} {row : ResearchResult} (hr : (Table.update s.results [r] u)[r']? = some row) :
    ∃ w, s.timeline.db.workspaces[row.workspaceId]? = some w ∧ w.ownerUserId = row.ownerUserId := by
  rw [Table.getElem?_update] at hr
  obtain ⟨old, hold, rfl⟩ := Option.map_eq_some_iff.mp hr
  obtain ⟨w, hw, howner⟩ := hs.owners r' old hold
  have hsame : (if r' ∈ [r] then u.apply old else old).workspaceId = old.workspaceId ∧
      (if r' ∈ [r] then u.apply old else old).ownerUserId = old.ownerUserId := by
    split
    · rcases u.apply_cases old with ⟨-, happly⟩ | ⟨-, happly⟩
      · rw [happly]
        exact hset old
      · rw [happly]
        exact ⟨rfl, rfl⟩
    · exact ⟨rfl, rfl⟩
  rw [hsame.1, hsame.2]
  exact ⟨w, hw, howner⟩

theorem currentVersion_update
    (hset : ∀ row, s.results[r]? = some row → row.currentVersion ≤ (u.set row).currentVersion)
    {r' : ResultId} {row : ResearchResult} (hr : s.results[r']? = some row) :
    ∃ row', (Table.update s.results [r] u)[r']? = some row' ∧ row.currentVersion ≤ row'.currentVersion := by
  rw [Table.getElem?_update, hr, Option.map_some]
  refine ⟨_, rfl, ?_⟩
  split
  · next hmem =>
      obtain rfl := List.mem_singleton.mp hmem
      rcases u.apply_cases row with ⟨-, happly⟩ | ⟨-, happly⟩
      · rw [happly]
        exact hset row hr
      · rw [happly]
  · exact Nat.le_refl _

theorem version_update {is : List VersionId} {target : VersionStatus} (htarget : target ≠ .active) {i : VersionId}
    {v' : ResearchResultVersion} (hv' : (Table.update s.versions is (setVersionStatus target))[i]? = some v') :
    ∃ v, s.versions[i]? = some v ∧ v.resultId = v'.resultId ∧ v.versionNumber = v'.versionNumber ∧
      (v'.status = .active → v.status = .active ∧ i ∉ is) := by
  rw [Table.getElem?_update] at hv'
  obtain ⟨v, hv, rfl⟩ := Option.map_eq_some_iff.mp hv'
  refine ⟨v, hv, ?_⟩
  by_cases hi : i ∈ is
  · simp [hi, Table.Update.apply, setVersionStatus, htarget]
  · simp [hi]

theorem not_active_of_superseded (hs : Sound s) {i : VersionId} {w : ResearchResultVersion}
    (hw : (Table.update s.versions (s.activeLatest r) (setVersionStatus .superseded))[i]? = some w)
    (hid : w.resultId = r) : w.status ≠ .active := by
  obtain ⟨v, hv, hsame, -, hstatus⟩ := version_update (by decide) hw
  intro hactive
  obtain ⟨hold, hnot⟩ := hstatus hactive
  -- the latest version is the only one that can have been active
  have hlatest := getLatestVersion_of_active hs.versions hv hold
  rw [hsame, hid] at hlatest
  apply hnot
  simp [Sys.activeLatest, hlatest, hv, hold]

theorem Sound.supersede (hs : Sound s) {r : ResultId} {result : ResearchResult} (hr : s.results[r]? = some result)
    {v : ResearchResultVersion} (hid : v.resultId = r) (hnumber : v.versionNumber = result.currentVersion + 1) :
    Sound { s with
      results := Table.update s.results [r] (setCurrentVersion (result.currentVersion + 1)),
      versions := Table.update s.versions (s.activeLatest r) (setVersionStatus .superseded) ++ [v] } := by
  refine ⟨fun r' row hrow => owners_update hs (fun _ => ⟨rfl, rfl⟩) hrow, ?_⟩
  have hgrown : Versioned (Table.update s.results [r] (setCurrentVersion (result.currentVersion + 1)))
      (Table.update s.versions (s.activeLatest r) (setVersionStatus .superseded)) := by
    refine hs.versions.of_rows (fun r' row hrow => currentVersion_update (fun row hrow => ?_) hrow) (fun i w hw => ?_)
    · obtain rfl := Option.some.inj (hr.symm.trans hrow)
      exact Nat.le_succ _
    · obtain ⟨w', hw', hsame, hnum, hstatus⟩ := version_update (by decide) hw
      exact ⟨w', hw', hsame, hnum, fun hactive => (hstatus hactive).1⟩
  have hrow : (Table.update s.results [r] (setCurrentVersion (result.currentVersion + 1)))[v.resultId]?
      = some { result with currentVersion := result.currentVersion + 1 } := by
    rw [hid, Table.getElem?_update, hr, Option.map_some, if_pos (List.mem_singleton.mpr rfl)]
    rfl
  refine hgrown.insert hrow (Nat.le_of_eq hnumber) (fun i w hw hsame => ?_)
  refine ⟨?_, not_active_of_superseded hs hw (hsame.trans hid)⟩
  obtain ⟨w', hw', hsame', hnum, -⟩ := version_update (by decide) hw
  obtain ⟨row, hrow', hle⟩ := hs.versions.numbered i w' hw'
  rw [hsame', hsame, hid, hr] at hrow'
  obtain rfl := Option.some.inj hrow'
  omega

theorem Sound.of_update (hs : Sound s) {versions : List ResearchResultVersion}
    (hset : ∀ row, (u.set row).workspaceId = row.workspaceId ∧ (u.set row).ownerUserId = row.ownerUserId ∧
      (u.set row).currentVersion = row.currentVersion)
    (hversions : ∀ (i : VersionId) (v' : ResearchResultVersion), versions[i]? = some v' →
      ∃ v, s.versions[i]? = some v ∧ v.resultId = v'.resultId ∧ v.versionNumber = v'.versionNumber ∧
        (v'.status = .active → v.status = .active)) (revisions : List ResultAclRevision) :
    Sound { s with results := Table.update s.results [r] u, versions := versions, revisions := revisions } := by
  refine ⟨fun r' row hrow => owners_update hs (fun row => ⟨(hset row).1, (hset row).2.1⟩) hrow, ?_⟩
  refine hs.versions.of_rows (fun r' row hrow => currentVersion_update (fun row _ => ?_) hrow) hversions
  exact Nat.le_of_eq (hset row).2.2.symm

theorem withdrawResult_ok {actor : UserId} {versionNumber : Option Nat}
    (h : withdrawResult s actor r versionNumber = .ok s') :
    (∃ n i v, versionNumber = some n ∧ s.versions[i]? = some v ∧ v.resultId = r ∧ v.versionNumber = n ∧
        s' = { s with versions := Table.update s.versions [i] (setVersionStatus .withdrawn) }) ∨
      versionNumber = none ∧ s' = { s with
        results := Table.update s.results [r] (setResultStatus .withdrawn),
        versions := s.versions.map (fun v =>
          if v.resultId = r ∧ v.status = .active then { v with status := .withdrawn } else v) } := by
  obtain ⟨result, -, h⟩ := bind_ok_iff.mp h
  cases versionNumber with
  | none => exact .inr ⟨rfl, (Except.ok.inj h).symm⟩
  | some n =>
    dsimp only at h
    split at h
    · cases h
    · next i hi =>
        obtain ⟨hlt, hguard, -⟩ := List.findIdx?_eq_some_iff_getElem.mp hi
        simp only [Bool.and_eq_true, beq_iff_eq] at hguard
        exact .inl ⟨n, i, _, rfl, List.getElem?_eq_getElem hlt, hguard.1, hguard.2, (Except.ok.inj h).symm⟩

theorem rows_step (h : step s a = some s') (ha : a.writesResults = false) :
    s'.results = s.results ∧ s'.versions = s.versions ∧ s'.revisions = s.revisions ∧
      ∀ (ws : WorkspaceId) (w : Research.Workspace), s.timeline.db.workspaces[ws]? = some w →
        s'.timeline.db.workspaces[ws]? = some w := by
  cases a with
  | timeline a | freeze ws actor dept refs =>
    simp only [step] at h
    split at h
    · cases h
    · obtain ⟨t, ht, rfl⟩ := Option.map_eq_some_iff.mp h
      exact ⟨rfl, rfl, rfl, fun _ _ hw => Research.workspace_step ht hw⟩
  | directory visible =>
    obtain rfl := Option.some.inj h
    exact ⟨rfl, rfl, rfl, fun _ _ hw => hw⟩
  | createDataset actor ws artifact file name =>
    simp only [step] at h
    split at h
    · obtain ⟨run, -, h⟩ := bind_ok_iff.mp (Evaluation.ok_of_toOption h)
      split at h
      · split at h
        · obtain rfl := Except.ok.inj h
          exact ⟨rfl, rfl, rfl, fun _ _ hw => hw⟩
        · cases h
      · cases h
    · cases h
  | createView actor ws artifact file name =>
    simp only [step] at h
    split at h
    · obtain ⟨run, -, h⟩ := bind_ok_iff.mp (Evaluation.ok_of_toOption h)
      obtain rfl := Except.ok.inj h
      exact ⟨rfl, rfl, rfl, fun _ _ hw => hw⟩
    · cases h
  | createInsight actor ws candidate =>
    simp only [step] at h
    split at h
    · obtain rfl := Option.some.inj h
      exact ⟨rfl, rfl, rfl, fun _ _ hw => hw⟩
    · cases h
  | deleteProduct actor ws kind id =>
    obtain rfl := Option.some.inj h
    cases kind <;> exact ⟨rfl, rfl, rfl, fun _ _ hw => hw⟩
  | publishConclusion actor ws name => cases ha
  | publishResult actor ws req => cases ha
  | publishNewVersion actor r ws req => cases ha
  | updateAcl actor r change => cases ha
  | withdrawResult actor r versionNumber => cases ha

theorem publishConclusion_ok {actor : UserId} {ws : WorkspaceId} {name : String}
    (h : step s (.publishConclusion actor ws name) = some s') :
    s.sees actor ws = true ∧ s' = publishConclusion s actor ws name := by
  simp only [step] at h
  split at h
  · next hsees => exact ⟨hsees, (Option.some.inj h).symm⟩
  · cases h

/-- **The invariant is kept.** -/
theorem sound_step (hs : Sound s) (h : step s a = some s') : Sound s' := by
  cases a with
  | publishConclusion actor ws name =>
    obtain ⟨hsees, rfl⟩ := publishConclusion_ok h
    exact hs.publish hsees rfl rfl rfl (Nat.le_refl _) s.revisions
  | publishResult actor ws req =>
    obtain ⟨refs, envelope, revisions, hprepared, -, rfl⟩ := publishResult_ok (Evaluation.ok_of_toOption h)
    exact hs.publish hprepared.sees rfl rfl rfl (Nat.le_refl _) revisions
  | publishNewVersion actor r ws req =>
    obtain ⟨result, refs, envelope, hr, -, -, -, rfl⟩ := publishNewVersion_ok (Evaluation.ok_of_toOption h)
    exact hs.supersede hr rfl rfl
  | updateAcl actor r change =>
    obtain ⟨result, revisions, hr, -, -, rfl⟩ := updateAcl_ok (Evaluation.ok_of_toOption h)
    exact hs.of_update (fun _ => ⟨rfl, rfl, rfl⟩) (fun i v hv => ⟨v, hv, rfl, rfl, id⟩) revisions
  | withdrawResult actor r versionNumber =>
    rcases withdrawResult_ok (Evaluation.ok_of_toOption h) with ⟨n, i, v, -, -, -, -, rfl⟩ | ⟨-, rfl⟩
    · refine ⟨hs.owners, hs.versions.of_rows (fun r' row hr => ⟨row, hr, Nat.le_refl _⟩) (fun j v hv => ?_)⟩
      obtain ⟨w, hw, hsame, hnum, hstatus⟩ := version_update (by decide) hv
      exact ⟨w, hw, hsame, hnum, fun hactive => (hstatus hactive).1⟩
    · refine hs.of_update (fun _ => ⟨rfl, rfl, rfl⟩) (fun i v hv => ?_) s.revisions
      rw [List.getElem?_map] at hv
      obtain ⟨w, hw, rfl⟩ := Option.map_eq_some_iff.mp hv
      refine ⟨w, hw, ?_⟩
      split
      · simp
      · simp
  -- every other step leaves the rows alone
  | _ =>
    obtain ⟨hresults, hversions, -, hworkspaces⟩ := rows_step h rfl
    exact hs.of_same hresults hversions hworkspaces

end Invariant

theorem sound_of_run (acts : List Action) : ∀ u ∈ play step init acts, Sound u.pre ∧ Sound u.post :=
  (play_run init acts).invariant_of_step (fun h hs => sound_step hs h) sound_init

end Irip.Publication
