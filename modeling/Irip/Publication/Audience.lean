import Irip.Publication.System
import Irip.Research.Turns

/-!
# `Publication.Audience` — whom a published result reaches

The check of an ACL compares two ranks: that of the requested ACL, and the lowest of the snapshots collected. A
source that is not collected, an ACL that is not the requested one, a list of users and another department escape it.
-/

namespace Irip.Publication

open Research (UserId WorkspaceId SnapshotId RunId)
open Runs

/-! ## Calls -/

/-- A call of the publication service that does not declassify. -/
structure Call where
  result : ResultId
  row : ResearchResult -- owner, workspace and ACL of the result after the call
  checked : Bool -- this ACL is the one the call checks
  collected : List SnapshotId -- the snapshots it checks it against
  runs : List RunId -- the runs behind the products of the active version after the call

/-- The runs behind the products of the latest version, where it is active. -/
def Sys.activeRuns (s : Sys) (r : ResultId) : List RunId :=
  (s.activeLatest r).flatMap (fun i => (s.versions[i]?.map (fun v => v.refs.analysisRunIds)).getD [])

/-- The call a step makes. -/
def Action.call (s : Sys) : Action → Option Call
  | .publishResult actor ws req =>
    if req.declassifies then none
    else some
      { result := s.results.length,
        row := { workspaceId := ws, ownerUserId := actor, name := req.title, currentVersion := 1,
                 currentAclType := req.requestedAcl, currentExplicitUserIds := req.explicitUserIds },
        checked := true, collected := s.sourceSnapshots req, runs := s.sourceRuns req }
  | .publishNewVersion _ r _ req =>
    if req.declassifies then none
    else s.results[r]?.map (fun row =>
      { result := r, row := row, checked := row.currentAclType == req.requestedAcl,
        collected := s.sourceSnapshots req, runs := s.sourceRuns req })
  | .updateAcl _ r change =>
    if change.declassifies then none
    else s.results[r]?.map (fun row =>
      { result := r,
        row := { row with currentAclType := change.aclType, currentExplicitUserIds := change.explicitUserIds },
        checked := true, collected := s.recordedSnapshots r, runs := s.activeRuns r })
  | _ => none

/-- The users the result lets in are inside the envelope of every snapshot that the runs behind its active version
were executed on. -/
def Sys.Bounded (s : Sys) (r : ResultId) : Prop :=
  ∀ result ∈ s.results[r]?, ∀ v ∈ s.versions, v.resultId = r → v.status = .active →
    ∀ x ∈ s.snapshotsOf v.refs.analysisRunIds, s.audience result ⊆ s.envelope x

/-! ## What the check covers -/

/-- The check of the call covers the snapshot: it is of the ACL the result gets, the snapshot is collected, and it was
frozen in the workspace of the result. -/
def Sys.Covers (s : Sys) (c : Call) (x : SnapshotId) : Prop :=
  c.checked = true ∧ x ∈ c.collected ∧
    ∀ row ∈ s.timeline.db.snapshots[x]?, row.workspaceId = c.row.workspaceId

/-- The ACL keeps within every source that the check does not cover, and so does its list within every source. -/
structure Sys.Confined (s : Sys) (c : Call) : Prop where
  uncovered : ∀ x ∈ s.snapshotsOf c.runs, ¬ s.Covers c x → s.audience c.row ⊆ s.envelope x
  listed : c.row.currentAclType = .explicit →
    ∀ u ∈ c.row.currentExplicitUserIds, ∀ x ∈ s.snapshotsOf c.runs, u ∈ s.envelope x

section Covered

variable {s s' : Sys} {a : Action} {c : Call}

open PermissionEnvelopeCalculator

theorem isBound_snapshotAcl (s : Sys) (x : SnapshotId) : IsBound (s.snapshotAcl x) := by
  unfold Sys.snapshotAcl
  cases s.envelopes[x]? with
  | none => exact .inr (.inl rfl)
  | some e => exact isBound_extractAcl _

/-- The calculator takes a snapshot for what it is, or for the strictest where the policy hides it. -/
theorem aclRank_sourceDetail_le (s : Sys) (actor : UserId) (x : SnapshotId) :
    aclRank (sourceDetail (s.getSnapshotEnvelope actor) x).aclType ≤ aclRank (s.snapshotAcl x) := by
  unfold sourceDetail
  cases h : s.getSnapshotEnvelope actor x with
  | none => exact Nat.zero_le _
  | some e =>
    obtain ⟨row, -, he⟩ := Option.bind_eq_some_iff.mp h
    simp [Sys.snapshotAcl, he]

/-- **Where the check covers a source, only the list is left to ask about.** -/
theorem subset_envelope {x : SnapshotId} {row : ResearchResult} (hrank : aclRank row.currentAclType ≤ aclRank (s.snapshotAcl x))
    (howner : ∃ w, s.timeline.db.workspaces[row.workspaceId]? = some w ∧ w.ownerUserId = row.ownerUserId)
    (hws : ∀ snapshot ∈ s.timeline.db.snapshots[x]?, snapshot.workspaceId = row.workspaceId)
    (hlisted : row.currentAclType = .explicit → ∀ u ∈ row.currentExplicitUserIds, u ∈ s.envelope x) :
    s.audience row ⊆ s.envelope x := by
  intro u hu
  by_cases hin : row.currentAclType = .explicit ∧ u ∈ row.currentExplicitUserIds
  · exact hlisted hin.1 u hin.2
  · intro snapshot hsnapshot w hw
    -- the snapshot and the result speak of the same owner and department
    obtain ⟨w₀, hw₀, howner⟩ := howner
    rw [hws snapshot hsnapshot, hw₀] at hw
    obtain rfl := Option.some.inj hw
    obtain ⟨w₁, hw₁, hallows⟩ := hu
    rw [hw₀] at hw₁
    obtain rfl := Option.some.inj hw₁
    rw [howner]
    exact allows_of_rank (isBound_snapshotAcl s x) hrank hallows (fun hexplicit hmem => hin ⟨hexplicit, hmem⟩)

/-- The sources bound the ACL exactly if it is confined, where a check stands behind those it covers. -/
theorem within_iff (hrank : ∀ x, s.Covers c x → aclRank c.row.currentAclType ≤ aclRank (s.snapshotAcl x))
    (howner : ∃ w, s.timeline.db.workspaces[c.row.workspaceId]? = some w ∧ w.ownerUserId = c.row.ownerUserId) :
    (∀ x ∈ s.snapshotsOf c.runs, s.audience c.row ⊆ s.envelope x) ↔ s.Confined c := by
  constructor
  · intro h
    refine ⟨fun x hx _ => h x hx, fun hexplicit u hu x hx => h x hx ?_⟩
    obtain ⟨w, hw, -⟩ := howner
    refine ⟨w, hw, ?_⟩
    simp [AclType.audience, hexplicit, AclType.allows, hu]
  · intro h x hx
    by_cases hcovers : s.Covers c x
    · exact subset_envelope (hrank x hcovers) howner hcovers.2.2 (fun hexplicit u hu => h.listed hexplicit u hu x hx)
    · exact h.uncovered x hx hcovers

theorem mem_snapshotsOf {runs : List RunId} {x : SnapshotId} :
    x ∈ s.snapshotsOf runs ↔
      ∃ r ∈ runs, (s.timeline.db.runs[r]?.map Research.AnalysisRun.snapshotId) = some x :=
  List.mem_filterMap

/-- After a call that has left everything else alone, the result is bounded exactly if its sources bound the ACL. -/
theorem bounded_iff_within {row : ResearchResult} (htimeline : s'.timeline = s.timeline)
    (hvisible : s'.visible = s.visible) (henvelopes : s'.envelopes = s.envelopes)
    (hrow : s'.results[c.result]? = some row) (hws : row.workspaceId = c.row.workspaceId)
    (howner : row.ownerUserId = c.row.ownerUserId) (hacl : row.currentAclType = c.row.currentAclType)
    (hids : row.currentExplicitUserIds = c.row.currentExplicitUserIds)
    (hruns : ∀ r : RunId, (∃ v ∈ s'.versions, v.resultId = c.result ∧ v.status = .active ∧
      r ∈ v.refs.analysisRunIds) ↔ r ∈ c.runs) :
    s'.Bounded c.result ↔ ∀ x ∈ s.snapshotsOf c.runs, s.audience c.row ⊆ s.envelope x := by
  have haudience : s'.audience row = s.audience c.row := by
    unfold Sys.audience
    rw [htimeline, hvisible, hws, howner, hacl, hids]
  have henvelope : ∀ x, s'.envelope x = s.envelope x := by
    intro x
    unfold Sys.envelope Sys.snapshotAcl
    rw [htimeline, hvisible, henvelopes]
  have hsnapshots : ∀ runs, s'.snapshotsOf runs = s.snapshotsOf runs := by
    intro runs
    unfold Sys.snapshotsOf
    rw [htimeline]
  constructor
  · intro h x hx
    obtain ⟨r, hr, hsnapshot⟩ := mem_snapshotsOf.mp hx
    obtain ⟨v, hv, hid, hactive, hmem⟩ := (hruns r).mpr hr
    have hsubset := h row hrow v hv hid hactive x (by
      rw [hsnapshots]
      exact mem_snapshotsOf.mpr ⟨r, hmem, hsnapshot⟩)
    rwa [haudience, henvelope] at hsubset
  · intro h row' hrow' v hv hid hactive x hx
    obtain rfl := Option.some.inj (hrow.symm.trans hrow')
    rw [hsnapshots] at hx
    obtain ⟨r, hr, hsnapshot⟩ := mem_snapshotsOf.mp hx
    rw [haudience, henvelope]
    exact h x (mem_snapshotsOf.mpr ⟨r, (hruns r).mp ⟨v, hv, hid, hactive, hr⟩, hsnapshot⟩)

variable {actor : UserId} {r : ResultId}

theorem aclRank_le_snapshotAcl {ids : List SnapshotId} {acl : AclType} {userIds : List UserId}
    (hvalid : (validateRequestedAcl acl userIds (calculateEnvelope (s.getSnapshotEnvelope actor) ids)).valid = true)
    {x : SnapshotId} (hx : x ∈ ids) : aclRank acl ≤ aclRank (s.snapshotAcl x) :=
  (aclRank_le_of_valid hvalid hx).trans (aclRank_sourceDetail_le s actor x)

theorem getLatestVersion_some {i : VersionId} (h : s.getLatestVersion r = some i) :
    ∃ v, s.versions[i]? = some v ∧ v.resultId = r := by
  unfold Sys.getLatestVersion at h
  have hfound := List.find?_some h
  obtain ⟨v, hv, hguard⟩ := (Option.any_eq_true _ _).mp hfound
  simp only [Bool.and_eq_true, beq_iff_eq] at hguard
  exact ⟨v, hv, hguard.1⟩

theorem exists_version_of_activeLatest {i : VersionId} {run : RunId} (hi : i ∈ s.activeLatest r)
    (hmem : run ∈ (s.versions[i]?.map (fun v => v.refs.analysisRunIds)).getD []) :
    ∃ v ∈ s.versions, v.resultId = r ∧ v.status = .active ∧ run ∈ v.refs.analysisRunIds := by
  obtain ⟨hlatest, hactive⟩ := List.mem_filter.mp hi
  obtain ⟨v, hv, hid⟩ := getLatestVersion_some (Option.mem_toList.mp hlatest)
  simp only [hv, Option.any_some, beq_iff_eq] at hactive
  refine ⟨v, List.mem_of_getElem? hv, hid, hactive, ?_⟩
  simpa [hv] using hmem

/-- **Publishing.** -/
theorem bounded_publishResult {ws : WorkspaceId} {req : PublishRequest} (hs : Sound s)
    (h : step s (.publishResult actor ws req) = some s') (hc : (Action.publishResult actor ws req).call s = some c) :
    s'.Bounded c.result ↔ s.Confined c := by
  obtain ⟨refs, envelope, revisions, hprepared, hcheck, rfl⟩ := publishResult_ok (Evaluation.ok_of_toOption h)
  simp only [Action.call] at hc
  split at hc
  · cases hc
  · next hdeclassifies =>
      obtain rfl := Option.some.inj hc
      have hvalid := hcheck.resolve_left hdeclassifies
      rw [hprepared.envelope] at hvalid
      refine Iff.trans ?_ (within_iff (fun x hcovers => ?_) ?_)
      · refine bounded_iff_within rfl rfl rfl List.getElem?_concat_length rfl rfl rfl rfl (fun r => ?_)
        rw [← hprepared.runs r]
        constructor
        · rintro ⟨v, hv, hid, hactive, hr⟩
          rcases List.mem_append.mp hv with hold | hnew
          · -- the versions there are belong to older results
            obtain ⟨i, hi⟩ := List.mem_iff_getElem?.mp hold
            obtain ⟨row, hrow, -⟩ := hs.versions.numbered i v hi
            rw [hid] at hrow
            simp at hrow
          · rw [List.mem_singleton.mp hnew] at hr
            exact hr
        · intro hr
          exact ⟨_, List.mem_append_right _ (List.mem_singleton_self _), rfl, rfl, hr⟩
      · exact aclRank_le_snapshotAcl hvalid ((hprepared.snapshots x).mpr hcovers.2.1)
      · obtain ⟨w, hw, hguard⟩ := (Option.any_eq_true _ _).mp hprepared.sees
        simp only [Bool.and_eq_true, beq_iff_eq] at hguard
        exact ⟨w, hw, hguard.1⟩

/-- **Publishing a new version.** -/
theorem bounded_publishNewVersion {ws : WorkspaceId} {req : PublishRequest}
    (hs : Sound s) (h : step s (.publishNewVersion actor r ws req) = some s')
    (hc : (Action.publishNewVersion actor r ws req).call s = some c) : s'.Bounded c.result ↔ s.Confined c := by
  obtain ⟨result, refs, envelope, hr, -, hprepared, hcheck, rfl⟩ :=
    publishNewVersion_ok (Evaluation.ok_of_toOption h)
  simp only [Action.call, hr, Option.map_some] at hc
  split at hc
  · cases hc
  · next hdeclassifies =>
      obtain rfl := Option.some.inj hc
      have hvalid := hcheck.resolve_left hdeclassifies
      rw [hprepared.envelope] at hvalid
      have hrow : (Table.update s.results [r] (setCurrentVersion (result.currentVersion + 1)))[r]?
          = some { result with currentVersion := result.currentVersion + 1 } := by
        rw [Table.getElem?_update, hr, Option.map_some, if_pos (List.mem_singleton.mpr rfl)]
        rfl
      refine Iff.trans ?_ (within_iff (fun x hcovers => ?_) (hs.owners r result hr))
      · refine bounded_iff_within rfl rfl rfl hrow rfl rfl rfl rfl (fun run => ?_)
        rw [← hprepared.runs run]
        constructor
        · rintro ⟨v, hv, hid, hactive, hrun⟩
          rcases List.mem_append.mp hv with hold | hnew
          · obtain ⟨i, hi⟩ := List.mem_iff_getElem?.mp hold
            exact absurd hactive (not_active_of_superseded hs hi hid)
          · rw [List.mem_singleton.mp hnew] at hrun
            exact hrun
        · intro hrun
          exact ⟨_, List.mem_append_right _ (List.mem_singleton_self _), rfl, rfl, hrun⟩
      · have hsame : result.currentAclType = req.requestedAcl := eq_of_beq hcovers.1
        rw [← hsame] at hvalid
        exact aclRank_le_snapshotAcl hvalid ((hprepared.snapshots x).mpr hcovers.2.1)

/-- **Changing the ACL.** -/
theorem bounded_updateAcl {change : AclChange} (hs : Sound s)
    (h : step s (.updateAcl actor r change) = some s') (hc : (Action.updateAcl actor r change).call s = some c) :
    s'.Bounded c.result ↔ s.Confined c := by
  obtain ⟨result, revisions, hr, -, hcheck, rfl⟩ := updateAcl_ok (Evaluation.ok_of_toOption h)
  simp only [Action.call, hr, Option.map_some] at hc
  split at hc
  · cases hc
  · next hdeclassifies =>
      obtain rfl := Option.some.inj hc
      have hvalid := hcheck.resolve_left hdeclassifies
      have hrow : (Table.update s.results [r] (setAcl change.aclType change.explicitUserIds))[r]?
          = some { result with currentAclType := change.aclType,
                               currentExplicitUserIds := change.explicitUserIds } := by
        rw [Table.getElem?_update, hr, Option.map_some, if_pos (List.mem_singleton.mpr rfl)]
        rfl
      refine Iff.trans ?_
        (within_iff (fun x hcovers => aclRank_le_snapshotAcl hvalid hcovers.2.1) (hs.owners r result hr))
      refine bounded_iff_within rfl rfl rfl hrow rfl rfl rfl rfl (fun run => ?_)
      constructor
      · rintro ⟨v, hv, rfl, hactive, hrun⟩
        obtain ⟨i, hi⟩ := List.mem_iff_getElem?.mp hv
        have hlatest := getLatestVersion_of_active hs.versions hi hactive
        refine List.mem_flatMap.mpr ⟨i, ?_, ?_⟩
        · simp [Sys.activeLatest, hlatest, hi, hactive]
        · simpa [hi] using hrun
      · intro hrun
        obtain ⟨i, hi, hmem⟩ := List.mem_flatMap.mp hrun
        exact exists_version_of_activeLatest hi hmem

end Covered

/-! ## Runs -/

/-- The step of the timeline, with evidence of one source where it freezes. -/
def lift : Research.Action → Action
  | .request (.freezeSnapshot ws actor dept) =>
    .freeze ws actor dept [{ sourceId := 0, factType := "revenue", status := "active", departmentName := none }]
  | a => .timeline a

/-- The owner of a workspace publishes the chart of a run. -/
def publishedView (acl : AclType) : List Action :=
  .directory (fun user dept => user == 0 && dept == 0) :: Research.finishedRun.map lift ++
    [.createView 0 0 0 { artifactType := "chart", contentHash := "", downloadable := true, errors := [] } "chart",
     .publishResult 0 0 { title := "chart", viewIds := [0], requestedAcl := acl }]

/-- What the timeline comes to before its plan is made, and before its run is claimed. -/
def beforePlan : List Action :=
  .directory (fun user dept => user == 0 && dept == 0) :: (Research.confirmedTurn.take 4).map lift

def beforeRun : List Action :=
  (Research.confirmedTurn.drop 5 ++ [Research.Action.checkSubmit 0 0 0 0, Research.Action.submit 0]).map lift

theorem step_dispatch (e : Nat) (s : Sys) : step s (.timeline (.dispatch e true)) =
    (Research.step s.timeline (.dispatch e true)).map (fun t => { s with timeline := t }) := rfl

theorem play_finishedRun (rest : List Action) :
    play step init ((.directory (fun user dept => user == 0 && dept == 0) :: Research.finishedRun.map lift) ++ rest) =
      Research.playFinished step Sys.timeline (fun s t => { s with timeline := t }) init beforePlan
        (.timeline (.dispatch 1 true)) beforeRun (.timeline (.dispatch 2 true))
        ((Research.finishedRun.drop 12).map lift ++ rest) :=
  Research.play_deliveries beforePlan beforeRun ((Research.finishedRun.drop 12).map lift ++ rest)
    (Research.play_delivery (step_dispatch 1) rfl rfl _) rfl
    (Research.play_delivery (step_dispatch 2) rfl rfl _)

/-- **A published audience is bounded exactly where the call is confined.** For every history and every call that
does not declassify: after the call the users the result lets in are inside the envelope of each snapshot behind
its active version if and only if the ACL keeps within the sources that the check does not cover, and its list
within all. -/
theorem bounded_iff (acts : List Action) : ∀ u ∈ play step init acts, ∀ c : Call, u.act.call u.pre = some c →
    (u.post.Bounded c.result ↔ u.pre.Confined c) := by
  intro u hu c hc
  have hs := (sound_of_run acts u hu).1
  have h := (play_run init acts).step_of_mem hu
  cases ha : u.act with
  | publishResult actor ws req =>
    rw [ha] at hc h
    exact bounded_publishResult hs h hc
  | publishNewVersion actor r ws req =>
    rw [ha] at hc h
    exact bounded_publishNewVersion hs h hc
  | updateAcl actor r change =>
    rw [ha] at hc h
    exact bounded_updateAcl hs h hc
  -- no other step is a call that sets or checks an ACL
  | _ => simp [ha, Action.call] at hc

/-- The owner publishes for himself. -/
theorem bounded_privateView : ∃ u ∈ play step init (publishedView .ownerOnly), ∃ c : Call,
    u.act.call u.pre = some c ∧ (u.post.Bounded c.result ↔ u.pre.Confined c) := by
  have hcall : ∃ u ∈ play step init (publishedView .ownerOnly), (u.act.call u.pre).isSome = true := by
    rw [publishedView, play_finishedRun]
    decide +kernel
  obtain ⟨u, hu, hcall⟩ := hcall
  obtain ⟨c, hc⟩ := Option.isSome_iff_exists.mp hcall
  exact ⟨u, hu, c, hc, bounded_iff (publishedView .ownerOnly) u hu c hc⟩

/-- A published audience is not bounded in general: a view has no snapshot of its own, and everybody may see the
chart of a run on evidence for a department. -/
theorem not_bounded : ¬ ∀ acts : List Action, ∀ u ∈ play step init acts, ∀ c : Call, u.act.call u.pre = some c →
    u.post.Bounded c.result := by
  intro h
  -- what boundedness says of user 9, whom the directory does not know
  have hstranger : ∃ u ∈ play step init (publishedView .all), ∃ c ∈ u.act.call u.pre,
      ¬ ∀ result ∈ u.post.results[c.result]?, ∀ v ∈ u.post.versions, v.resultId = c.result → v.status = .active →
        ∀ x ∈ u.post.snapshotsOf v.refs.analysisRunIds,
          (∃ w ∈ u.post.timeline.db.workspaces[result.workspaceId]?, result.currentAclType.allows u.post.visible
            ⟨result.ownerUserId, w.departmentId⟩ result.currentExplicitUserIds 9 = true) →
          ∀ row ∈ u.post.timeline.db.snapshots[x]?, ∀ w ∈ u.post.timeline.db.workspaces[row.workspaceId]?,
            (u.post.snapshotAcl x).allows u.post.visible ⟨w.ownerUserId, w.departmentId⟩ [] 9 = true := by
    rw [publishedView, play_finishedRun]
    decide +kernel
  obtain ⟨u, hu, c, hc, hnot⟩ := hstranger
  refine hnot (fun result hresult v hv hid hactive x hx hin => ?_)
  exact h (publishedView .all) u hu c hc result hresult v hv hid hactive x hx hin

end Irip.Publication
