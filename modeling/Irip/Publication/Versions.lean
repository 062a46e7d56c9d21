import Irip.Publication.Audience

/-!
# `Publication.Versions` — the status of a result and of its versions

A result carries a status of its own beside those of its versions. Publishing supersedes the latest version and
leaves the status of the result alone; withdrawing one version by its number does so too.
-/

namespace Irip.Publication

open Research (UserId)
open Runs

/-! ## In order -/

/-- The versions of a result, in the order of their insertion. -/
def Sys.versionsOf (s : Sys) (r : ResultId) : List ResearchResultVersion :=
  s.versions.filter (fun v => v.resultId == r)

/-- The status of the result is `withdrawn` exactly if none of its versions is active. -/
def Sys.StatusAgrees (s : Sys) (r : ResultId) : Prop :=
  ∀ result ∈ s.results[r]?,
    result.status = .withdrawn ↔ ∀ v ∈ s.versions, v.resultId = r → v.status ≠ .active

/-- The versions of a result are numbered from 1 to the current one, one of them at most is active, and the status
of the result says whether one is. -/
structure Sys.InOrder (s : Sys) (r : ResultId) : Prop where
  numbered : ∀ result ∈ s.results[r]?,
    (s.versionsOf r).map ResearchResultVersion.versionNumber = List.range' 1 result.currentVersion
  single : ∀ (i j : VersionId) (v w : ResearchResultVersion), s.versions[i]? = some v → s.versions[j]? = some w →
    v.resultId = r → w.resultId = r → v.status = .active → w.status = .active → i = j
  status : s.StatusAgrees r

/-- After the step the versions of the result are in order, and none has become active that was not. -/
structure KeepsOrder (r : ResultId) (u : Transition Sys Action) : Prop where
  inOrder : u.post.InOrder r
  closed : ∀ (i : VersionId) (v : ResearchResultVersion), u.pre.versions[i]? = some v → v.resultId = r →
    v.status ≠ .active → ∃ v', u.post.versions[i]? = some v' ∧ v'.status ≠ .active

section Steps

variable {s s' : Sys} {a : Action} {r : ResultId}

variable {v : ResearchResultVersion} {is : List VersionId} {target : VersionStatus} {r' : ResultId}

theorem Sound.single (hs : Sound s) {i j : VersionId} {w : ResearchResultVersion} (hv : s.versions[i]? = some v)
    (hw : s.versions[j]? = some w) (hsame : v.resultId = w.resultId) (hvactive : v.status = .active)
    (hwactive : w.status = .active) : i = j := by
  have hle := hs.versions.last i j v w hv hw hsame hvactive
  have hge := hs.versions.last j i w v hw hv hsame.symm hwactive
  exact hs.versions.unique i j v w hv hw hsame (Nat.le_antisymm hge hle)

theorem closed_update (htarget : target ≠ .active) {i : VersionId} (hv : s.versions[i]? = some v) :
    ∃ v', (Table.update s.versions is (setVersionStatus target))[i]? = some v' ∧
      (v.status ≠ .active → v'.status ≠ .active) ∧ v' = { v with status := v'.status } := by
  rw [Table.getElem?_update, hv, Option.map_some]
  refine ⟨_, rfl, fun hclosed => ?_, ?_⟩
  · by_cases hi : i ∈ is
    · simpa [hi, Table.Update.apply, setVersionStatus] using htarget
    · simpa [hi] using hclosed
  · by_cases hi : i ∈ is
    · simp [hi, Table.Update.apply, setVersionStatus]
    · simp [hi]

/-- **What a step does to a version.** At most its status changes, and it does not become active again. -/
theorem version_kept (h : step s a = some s') {i : VersionId} (hv : s.versions[i]? = some v) :
    ∃ v', s'.versions[i]? = some v' ∧ (v.status ≠ .active → v'.status ≠ .active) ∧
      v' = { v with status := v'.status } := by
  have hlt : i < s.versions.length := (List.getElem?_eq_some_iff.mp hv).1
  cases a with
  | publishConclusion actor ws name =>
    obtain ⟨-, rfl⟩ := publishConclusion_ok h
    exact ⟨v, (List.getElem?_append_left hlt).trans hv, id, rfl⟩
  | publishResult actor ws req =>
    obtain ⟨refs, envelope, revisions, -, -, rfl⟩ := publishResult_ok (Evaluation.ok_of_toOption h)
    exact ⟨v, (List.getElem?_append_left hlt).trans hv, id, rfl⟩
  | publishNewVersion actor r' ws req =>
    obtain ⟨result, refs, envelope, -, -, -, -, rfl⟩ := publishNewVersion_ok (Evaluation.ok_of_toOption h)
    have hsuperseded : VersionStatus.superseded ≠ .active := by decide
    obtain ⟨v', hv', hkept⟩ := closed_update hsuperseded hv
    have hlt' := (List.getElem?_eq_some_iff.mp hv').1
    exact ⟨v', (List.getElem?_append_left hlt').trans hv', hkept⟩
  | updateAcl actor r' change =>
    obtain ⟨result, revisions, -, -, -, rfl⟩ := updateAcl_ok (Evaluation.ok_of_toOption h)
    exact ⟨v, hv, id, rfl⟩
  | withdrawResult actor r' versionNumber =>
    rcases withdrawResult_ok (Evaluation.ok_of_toOption h) with ⟨n, j, w, -, -, -, -, rfl⟩ | ⟨-, rfl⟩
    · exact closed_update (by decide) hv
    · refine ⟨_, by rw [List.getElem?_map, hv, Option.map_some], fun hclosed => ?_, ?_⟩
      · split
        · exact VersionStatus.noConfusion
        · exact hclosed
      · split <;> rfl
  | _ => exact ⟨v, by rw [(rows_step h rfl).2.1, hv], id, rfl⟩

theorem version_step (h : step s a = some s') {i : VersionId} (hv : s.versions[i]? = some v) :
    ∃ v', s'.versions[i]? = some v' ∧ (v.status ≠ .active → v'.status ≠ .active) := by
  obtain ⟨v', hv', hstatus, -⟩ := version_kept h hv
  exact ⟨v', hv', hstatus⟩

/-! ## Numbers -/

/-- The versions of every result are numbered from 1 to the current one. -/
def Numbered (results : List ResearchResult) (versions : List ResearchResultVersion) : Prop :=
  ∀ (r : ResultId) (result : ResearchResult), results[r]? = some result →
    (versions.filter (fun v => v.resultId == r)).map ResearchResultVersion.versionNumber
      = List.range' 1 result.currentVersion

theorem filter_numbers_congr {versions versions' : List ResearchResultVersion}
    (h : versions'.map (fun v => (v.resultId, v.versionNumber)) = versions.map (fun v => (v.resultId, v.versionNumber)))
    (r : ResultId) :
    (versions'.filter (fun v => v.resultId == r)).map ResearchResultVersion.versionNumber =
      (versions.filter (fun v => v.resultId == r)).map ResearchResultVersion.versionNumber := by
  have hread : ∀ vs : List ResearchResultVersion,
      (vs.filter (fun v => v.resultId == r)).map ResearchResultVersion.versionNumber =
        ((vs.map (fun v => (v.resultId, v.versionNumber))).filter (fun k => k.1 == r)).map Prod.snd := by
    intro vs
    rw [List.filter_map, List.map_map]
    rfl
  rw [hread, hread, h]

theorem Numbered.of_keys {results results' : List ResearchResult} {versions versions' : List ResearchResultVersion}
    (h : Numbered results versions)
    (hresults : ∀ (r : ResultId) (result' : ResearchResult), results'[r]? = some result' →
      ∃ result, results[r]? = some result ∧ result.currentVersion = result'.currentVersion)
    (hversions : versions'.map (fun v => (v.resultId, v.versionNumber))
      = versions.map (fun v => (v.resultId, v.versionNumber))) : Numbered results' versions' := by
  intro r result' hr'
  obtain ⟨result, hr, hsame⟩ := hresults r result' hr'
  rw [filter_numbers_congr hversions, h r result hr, hsame]

theorem Numbered.insert {results results' : List ResearchResult} {versions : List ResearchResultVersion}
    {new : ResearchResultVersion} (h : Numbered results versions)
    (hothers : ∀ (r : ResultId) (result' : ResearchResult), results'[r]? = some result' → r ≠ new.resultId →
      ∃ result, results[r]? = some result ∧ result.currentVersion = result'.currentVersion)
    {n : Nat} (hn : (versions.filter (fun v => v.resultId == new.resultId)).map ResearchResultVersion.versionNumber
      = List.range' 1 n) (hnumber : new.versionNumber = n + 1)
    (hresult : ∀ result' ∈ results'[new.resultId]?, result'.currentVersion = n + 1) :
    Numbered results' (versions ++ [new]) := by
  intro r result' hr'
  rw [List.filter_append, List.map_append]
  by_cases hr : r = new.resultId
  · subst hr
    rw [hn, hresult result' hr', List.range'_1_concat]
    simp [hnumber, Nat.add_comm]
  · obtain ⟨result, hrow, hsame⟩ := hothers r result' hr' hr
    rw [h r result hrow, hsame]
    simp [Ne.symm hr]

theorem map_key_update (versions : List ResearchResultVersion) :
    (Table.update versions is (setVersionStatus target)).map (fun v => (v.resultId, v.versionNumber))
      = versions.map (fun v => (v.resultId, v.versionNumber)) := Table.map_update (fun _ => rfl) versions is

theorem currentVersion_of_update {results : List ResearchResult} {r : ResultId} {u : Table.Update ResearchResult}
    (hset : ∀ row, (u.set row).currentVersion = row.currentVersion) {row' : ResearchResult}
    (hr' : (Table.update results [r] u)[r']? = some row') :
    ∃ row, results[r']? = some row ∧ row.currentVersion = row'.currentVersion := by
  rw [Table.getElem?_update] at hr'
  obtain ⟨row, hrow, rfl⟩ := Option.map_eq_some_iff.mp hr'
  refine ⟨row, hrow, ?_⟩
  split
  · rcases u.apply_cases row with ⟨-, happly⟩ | ⟨-, happly⟩
    · rw [happly, hset]
    · rw [happly]
  · rfl

theorem Numbered.publish (hs : Sound s) (h : Numbered s.results s.versions) {result : ResearchResult}
    {v : ResearchResultVersion} (hid : v.resultId = s.results.length) (hnumber : v.versionNumber = 1)
    (hcurrent : result.currentVersion = 1) : Numbered (s.results ++ [result]) (s.versions ++ [v]) := by
  refine h.insert (fun r result' hr' hne => ?_) (n := 0) ?_ hnumber (fun result' hr' => ?_)
  · cases hold : s.results[r]? with
    | some row =>
      rw [List.getElem?_append_left (List.getElem?_eq_some_iff.mp hold).1, hold] at hr'
      obtain rfl := Option.some.inj hr'
      exact ⟨row, rfl, rfl⟩
    | none => exact absurd ((Table.eq_of_getElem?_insert hold hr').1.trans hid.symm) hne
  · -- the versions there are belong to older results
    rw [hid]
    simp only [List.range'_zero, List.map_eq_nil_iff, List.filter_eq_nil_iff, beq_iff_eq]
    intro w hw hsame
    obtain ⟨i, hi⟩ := List.mem_iff_getElem?.mp hw
    obtain ⟨row, hrow, -⟩ := hs.versions.numbered i w hi
    rw [hsame] at hrow
    simp at hrow
  · rw [hid, Option.mem_def, List.getElem?_concat_length] at hr'
    rw [← Option.some.inj hr', hcurrent]

/-- **The numbers are kept.** -/
theorem numbered_step (hs : Sound s) (h : step s a = some s') (hn : Numbered s.results s.versions) :
    Numbered s'.results s'.versions := by
  cases a with
  | publishConclusion actor ws name =>
    obtain ⟨-, rfl⟩ := publishConclusion_ok h
    exact hn.publish hs rfl rfl rfl
  | publishResult actor ws req =>
    obtain ⟨refs, envelope, revisions, -, -, rfl⟩ := publishResult_ok (Evaluation.ok_of_toOption h)
    exact hn.publish hs rfl rfl rfl
  | publishNewVersion actor r' ws req =>
    obtain ⟨result, refs, envelope, hr, -, -, -, rfl⟩ := publishNewVersion_ok (Evaluation.ok_of_toOption h)
    have hclosed : Numbered s.results (Table.update s.versions (s.activeLatest r') (setVersionStatus .superseded)) :=
      hn.of_keys (fun _ row hrow => ⟨row, hrow, rfl⟩) (map_key_update _)
    refine hclosed.insert (fun r'' result' hr' hne => ?_) (hclosed r' result hr) rfl (fun result' hr' => ?_)
    · have hnot : r'' ∉ [r'] := fun hmem => hne (List.mem_singleton.mp hmem)
      rw [Table.getElem?_update] at hr'
      simp only [if_neg hnot] at hr'
      obtain ⟨row, hrow, rfl⟩ := Option.map_eq_some_iff.mp hr'
      exact ⟨row, hrow, rfl⟩
    · rw [Option.mem_def, Table.getElem?_update, hr, Option.map_some, if_pos (List.mem_singleton.mpr rfl)] at hr'
      rw [← Option.some.inj hr']
      rfl
  | updateAcl actor r' change =>
    obtain ⟨result, revisions, -, -, -, rfl⟩ := updateAcl_ok (Evaluation.ok_of_toOption h)
    exact hn.of_keys (fun _ _ hrow => currentVersion_of_update (fun _ => rfl) hrow) rfl
  | withdrawResult actor r' versionNumber =>
    rcases withdrawResult_ok (Evaluation.ok_of_toOption h) with ⟨n, j, w, -, -, -, -, rfl⟩ | ⟨-, rfl⟩
    · exact hn.of_keys (fun _ row hrow => ⟨row, hrow, rfl⟩) (map_key_update _)
    · refine hn.of_keys (fun _ _ hrow => currentVersion_of_update (fun _ => rfl) hrow) ?_
      rw [List.map_map]
      refine List.map_congr_left (fun v _ => ?_)
      by_cases hv : v.resultId = r' ∧ v.status = .active
      · simp [hv]
      · simp [hv]
  | _ =>
    obtain ⟨hresults, hversions, -⟩ := rows_step h rfl
    rw [hresults, hversions]
    exact hn

/-! ## Statuses -/

/-- The step brings the status of the result and those of its versions apart, where they agree before: it withdraws
the active version by its number, or publishes a version of a result that is withdrawn. -/
def Action.desyncs (s : Sys) (r : ResultId) : Action → Bool
  | .withdrawResult _ r' (some n) =>
    r' == r && s.versions.any (fun v => v.resultId == r && v.versionNumber == n && v.status == .active)
  | .publishNewVersion _ r' _ _ => r' == r && s.results[r]?.any (fun result => result.status == .withdrawn)
  | _ => false

/-- The result has an active version. -/
def HasActive (versions : List ResearchResultVersion) (r : ResultId) : Prop :=
  ∃ v ∈ versions, v.resultId = r ∧ v.status = .active

theorem hasActive_append {versions : List ResearchResultVersion} {new : ResearchResultVersion} :
    HasActive (versions ++ [new]) r ↔ HasActive versions r ∨ new.resultId = r ∧ new.status = .active := by
  simp [HasActive, List.mem_append, or_and_right, exists_or]

/-- A result has an active version after some have got a status that is not active if it has one that is not among
them. -/
theorem hasActive_update (htarget : target ≠ .active) :
    HasActive (Table.update s.versions is (setVersionStatus target)) r ↔
      ∃ (i : VersionId) (v : ResearchResultVersion), s.versions[i]? = some v ∧ v.resultId = r ∧ v.status = .active ∧
        i ∉ is := by
  constructor
  · rintro ⟨v', hmem, rfl, hactive⟩
    obtain ⟨i, hi⟩ := List.mem_iff_getElem?.mp hmem
    obtain ⟨v, hv, hsame, -, hstatus⟩ := version_update htarget hi
    exact ⟨i, v, hv, hsame, hstatus hactive⟩
  · rintro ⟨i, v, hv, hid, hactive, hnot⟩
    refine ⟨v, List.mem_iff_getElem?.mpr ⟨i, ?_⟩, hid, hactive⟩
    rw [Table.getElem?_update, hv, Option.map_some, if_neg hnot]

theorem hasActive_update_of_ne (htarget : target ≠ .active)
    (hothers : ∀ i ∈ is, ∀ v : ResearchResultVersion, s.versions[i]? = some v → v.status = .active → v.resultId ≠ r) :
    HasActive (Table.update s.versions is (setVersionStatus target)) r ↔ HasActive s.versions r := by
  rw [hasActive_update htarget]
  constructor
  · rintro ⟨i, v, hv, hid, hactive, -⟩
    exact ⟨v, List.mem_of_getElem? hv, hid, hactive⟩
  · rintro ⟨v, hmem, hid, hactive⟩
    obtain ⟨i, hi⟩ := List.mem_iff_getElem?.mp hmem
    exact ⟨i, v, hi, hid, hactive, fun his => hothers i his v hi hactive hid⟩

theorem statusAgrees_iff : s.StatusAgrees r ↔
    ∀ result ∈ s.results[r]?, result.status = .withdrawn ↔ ¬ HasActive s.versions r := by
  unfold Sys.StatusAgrees HasActive
  simp only [not_exists, not_and]

theorem statusAgrees_of_same (hagrees : s.StatusAgrees r)
    (hresults : s'.results[r]?.map ResearchResult.status = s.results[r]?.map ResearchResult.status)
    (hactive : HasActive s'.versions r ↔ HasActive s.versions r) : s'.StatusAgrees r := by
  rw [statusAgrees_iff] at hagrees ⊢
  intro row' hr'
  rw [hr', Option.map_some] at hresults
  obtain ⟨row, hr, hstatus⟩ := Option.map_eq_some_iff.mp hresults.symm
  rw [hactive, ← hstatus]
  exact hagrees row hr

theorem statusAgrees_publish (h : s.StatusAgrees r) {result : ResearchResult}
    (hpublished : result.status = .published) (hid : v.resultId = s.results.length)
    (hactive : v.status = .active) (hresults : s'.results = s.results ++ [result])
    (hversions : s'.versions = s.versions ++ [v]) : s'.StatusAgrees r := by
  by_cases hr : r = s.results.length
  · rw [statusAgrees_iff, hresults, hversions, hasActive_append, hr, List.getElem?_concat_length]
    rintro row ⟨⟩
    simp [hpublished, hid, hactive]
  · have hrows : s'.results[r]? = s.results[r]? := by
      rw [hresults]
      cases hold : s.results[r]? with
      | some row => rw [List.getElem?_append_left (List.getElem?_eq_some_iff.mp hold).1, hold]
      | none =>
        cases hnew : (s.results ++ [result])[r]? with
        | none => rfl
        | some row => exact absurd (Table.eq_of_getElem?_insert hold hnew).1 hr
    refine statusAgrees_of_same h (by rw [hrows]) ?_
    rw [hversions, hasActive_append]
    have hne : v.resultId ≠ r := fun hsame => hr (hsame.symm.trans hid)
    simp [hne]

theorem status_update {u : Table.Update ResearchResult} (hset : r' = r → ∀ row, (u.set row).status = row.status) :
    (Table.update s.results [r'] u)[r]?.map ResearchResult.status = s.results[r]?.map ResearchResult.status := by
  rw [Table.getElem?_update, Option.map_map]
  congr 1
  funext row
  by_cases hr : r = r'
  · rcases u.apply_cases row with ⟨-, happly⟩ | ⟨-, happly⟩
    · simp [hr, happly, hset hr.symm]
    · simp [hr, happly]
  · simp [hr]

theorem of_mem_activeLatest {i : VersionId} (hi : i ∈ s.activeLatest r')
    (hv : s.versions[i]? = some v) : v.resultId = r' := by
  obtain ⟨w, hw, hid⟩ := getLatestVersion_some (Option.mem_toList.mp (List.mem_filter.mp hi).1)
  obtain rfl := Option.some.inj (hv.symm.trans hw)
  exact hid

theorem statusAgrees_withdrawOne (hs : Sound s) (hagrees : s.StatusAgrees r) {n : Nat} {actor : UserId}
    {j : VersionId} {w : ResearchResultVersion} (hw : s.versions[j]? = some w) (hid : w.resultId = r')
    (hnum : w.versionNumber = n) :
    ({ s with versions := Table.update s.versions [j] (setVersionStatus .withdrawn) } : Sys).StatusAgrees r ↔
      (Action.withdrawResult actor r' (some n)).desyncs s r = false := by
  have hwithdrawn : VersionStatus.withdrawn ≠ .active := by decide
  have hj : ∀ {i : VersionId} {v : ResearchResultVersion}, i ∈ [j] → s.versions[i]? = some v → v = w := by
    intro i v hi hv
    rw [List.mem_singleton.mp hi] at hv
    exact Option.some.inj (hv.symm.trans hw)
  by_cases hr : r' = r
  · subst hr
    by_cases hactive : w.status = .active
    · -- it was the only active one, and the result was published
      have hdesyncs : (Action.withdrawResult actor r' (some n)).desyncs s r' = true := by
        simp only [Action.desyncs, beq_self_eq_true, Bool.true_and, List.any_eq_true]
        exact ⟨w, List.mem_of_getElem? hw, by simp [hid, hnum, hactive]⟩
      obtain ⟨row, hrow, -⟩ := hs.versions.numbered j w hw
      rw [hid] at hrow
      have hpublished : row.status ≠ .withdrawn := fun hstatus =>
        (statusAgrees_iff.mp hagrees row hrow).mp hstatus ⟨w, List.mem_of_getElem? hw, hid, hactive⟩
      rw [hdesyncs, statusAgrees_iff, hasActive_update hwithdrawn]
      refine iff_of_false (fun hall => ?_) (by simp)
      refine hpublished ((hall row hrow).mpr ?_)
      rintro ⟨i, v, hv, hvid, hvactive, hnot⟩
      exact hnot (List.mem_singleton.mpr (hs.single hv hw (hvid.trans hid.symm) hvactive hactive))
    · refine iff_of_true (statusAgrees_of_same hagrees rfl ?_) ?_
      · exact hasActive_update_of_ne hwithdrawn (fun i hi v hv hvactive _ => hactive (hj hi hv ▸ hvactive))
      · -- no other version has this number
        simp only [Action.desyncs, beq_self_eq_true, Bool.true_and, List.any_eq_false, Bool.and_eq_true, beq_iff_eq]
        rintro v hv ⟨⟨hvid, hvnum⟩, hvactive⟩
        obtain ⟨i, hi⟩ := List.mem_iff_getElem?.mp hv
        have hij := hs.versions.unique i j v w hi hw (hvid.trans hid.symm) (hvnum.trans hnum.symm)
        exact hactive (hj (List.mem_singleton.mpr hij) hi ▸ hvactive)
  · refine iff_of_true (statusAgrees_of_same hagrees rfl ?_) ?_
    · refine hasActive_update_of_ne hwithdrawn (fun i hi v hv _ hvid => hr ?_)
      rw [← hid, ← hj hi hv, hvid]
    · simp [Action.desyncs, hr]

theorem hasActive_withdrawAll :
    HasActive (s.versions.map (fun v =>
      if v.resultId = r' ∧ v.status = .active then { v with status := .withdrawn } else v)) r ↔
      r' ≠ r ∧ HasActive s.versions r := by
  constructor
  · rintro ⟨v', hmem, hid, hactive⟩
    obtain ⟨v, hv, rfl⟩ := List.mem_map.mp hmem
    split at hid
    · next hguard =>
        rw [if_pos hguard] at hactive
        cases hactive
    · next hguard =>
        rw [if_neg hguard] at hactive
        exact ⟨fun hr => hguard ⟨hid.trans hr.symm, hactive⟩, v, hv, hid, hactive⟩
  · rintro ⟨hr, v, hv, hid, hactive⟩
    refine ⟨v, List.mem_map.mpr ⟨v, hv, ?_⟩, hid, hactive⟩
    rw [if_neg (fun hguard => hr (hguard.1.symm.trans hid))]

/-- **A step keeps the statuses in agreement or desyncs them.** -/
theorem statusAgrees_step (hs : Sound s) (hagrees : s.StatusAgrees r) (h : step s a = some s') :
    s'.StatusAgrees r ↔ a.desyncs s r = false := by
  cases a with
  | publishConclusion actor ws name =>
    obtain ⟨-, rfl⟩ := publishConclusion_ok h
    exact iff_of_true (statusAgrees_publish hagrees rfl rfl rfl rfl rfl) rfl
  | publishResult actor ws req =>
    obtain ⟨refs, envelope, revisions, -, -, rfl⟩ := publishResult_ok (Evaluation.ok_of_toOption h)
    exact iff_of_true (statusAgrees_publish hagrees rfl rfl rfl rfl rfl) rfl
  | publishNewVersion actor r' ws req =>
    obtain ⟨result, refs, envelope, hr', -, -, -, rfl⟩ := publishNewVersion_ok (Evaluation.ok_of_toOption h)
    by_cases hr : r' = r
    · -- the result keeps its status, and has an active version now
      subst hr
      rw [statusAgrees_iff, hasActive_append]
      simp [Action.desyncs, hr', Table.Update.apply, setCurrentVersion]
    · refine iff_of_true (statusAgrees_of_same hagrees (status_update (fun hsame => absurd hsame hr)) ?_) ?_
      · rw [hasActive_append]
        have hsuperseded : VersionStatus.superseded ≠ .active := by decide
        rw [hasActive_update_of_ne hsuperseded (fun i hi v hv _ hid => hr ((of_mem_activeLatest hi hv).symm.trans hid))]
        simp [hr]
      · simp [Action.desyncs, hr]
  | updateAcl actor r' change =>
    obtain ⟨result, revisions, -, -, -, rfl⟩ := updateAcl_ok (Evaluation.ok_of_toOption h)
    exact iff_of_true (statusAgrees_of_same hagrees (status_update (fun _ _ => rfl)) Iff.rfl) rfl
  | withdrawResult actor r' versionNumber =>
    rcases withdrawResult_ok (Evaluation.ok_of_toOption h) with ⟨n, j, w, rfl, hw, hid, hnum, rfl⟩ | ⟨rfl, rfl⟩
    · exact statusAgrees_withdrawOne hs hagrees hw hid hnum
    · refine iff_of_true ?_ rfl
      by_cases hr : r' = r
      · subst hr
        rw [statusAgrees_iff, hasActive_withdrawAll]
        intro row hrow
        rw [Option.mem_def, Table.getElem?_update] at hrow
        obtain ⟨old, -, rfl⟩ := Option.map_eq_some_iff.mp hrow
        simp [Table.Update.apply, setResultStatus]
      · refine statusAgrees_of_same hagrees (status_update (fun hsame => absurd hsame hr)) ?_
        rw [hasActive_withdrawAll]
        simp [hr]
  | _ =>
    obtain ⟨hresults, hversions, -⟩ := rows_step h rfl
    refine iff_of_true (statusAgrees_of_same hagrees (by rw [hresults]) (by rw [hversions])) rfl

theorem inOrder_of_sound (hs : Sound s) (hn : Numbered s.results s.versions) (hagrees : s.StatusAgrees r) :
    s.InOrder r where
  numbered result hr := hn r result hr
  single _ _ _ _ hv hw hvid hwid hvactive hwactive := hs.single hv hw (hvid.trans hwid.symm) hvactive hwactive
  status := hagrees

end Steps

/-! ## Runs -/

/-- What holds before every step as long as no step has desynced the result. -/
structure Ordered (r : ResultId) (s : Sys) : Prop where
  sound : Sound s
  numbered : Numbered s.results s.versions
  agrees : s.StatusAgrees r

theorem ordered_init (r : ResultId) : Ordered r init := by
  refine ⟨sound_init, ?_, ?_⟩
  · intro r' result h
    cases h
  · intro result h
    cases h

/-- **Results stay in order exactly in the runs that never desync them.** For every history and every result: after
each step its versions are numbered from 1 to the current one, at most one is active, its status is `withdrawn`
exactly if none is, and no version that was not active has become so, if and only if no step withdraws its active
version by number or publishes a version of it while it is withdrawn. -/
theorem keepsOrder_iff (acts : List Action) (r : ResultId) :
    (∀ u ∈ play step init acts, KeepsOrder r u) ↔ ∀ u ∈ play step init acts, u.act.desyncs u.pre r = false := by
  have hrun : Run step init _ _ := play_run init acts
  refine hrun.forall_congr (I := Ordered r) (fun h hinv => ?_) (ordered_init r)
  have hagrees := statusAgrees_step hinv.sound hinv.agrees h
  have hsound := sound_step hinv.sound h
  have hnumbered := numbered_step hinv.sound h hinv.numbered
  refine ⟨⟨fun hkeeps => hagrees.mp hkeeps.inOrder.status, fun hno => ?_⟩, fun hno => ?_⟩
  · refine ⟨inOrder_of_sound hsound hnumbered (hagrees.mpr hno), fun i v hv _ hclosed => ?_⟩
    obtain ⟨v', hv', hstatus⟩ := version_step h hv
    exact ⟨v', hv', hstatus hclosed⟩
  · exact ⟨hsound, hnumbered, hagrees.mpr hno⟩

/-- The owner withdraws the only version by its number. -/
def withdrawnVersion : List Action := publishedView .ownerOnly ++ [.withdrawResult 0 0 (some 1)]

/-- Results do not stay in order in general: with its only version withdrawn a result stays `published`. -/
theorem not_keepsOrder : ¬ ∀ (acts : List Action) (r : ResultId), ∀ u ∈ play step init acts, KeepsOrder r u := by
  intro h
  have hleft : ∃ u ∈ play step init withdrawnVersion, (∃ result ∈ u.post.results[0]?, result.status = .published) ∧
      ∀ v ∈ u.post.versions, v.status ≠ .active := by
    rw [withdrawnVersion, publishedView, List.append_assoc, play_finishedRun]
    decide +kernel
  obtain ⟨u, hu, ⟨result, hr, hpublished⟩, hnone⟩ := hleft
  have hwithdrawn := ((h withdrawnVersion 0 u hu).inOrder.status result hr).mpr (fun v hv _ => hnone v hv)
  rw [hpublished] at hwithdrawn
  cases hwithdrawn

end Irip.Publication
