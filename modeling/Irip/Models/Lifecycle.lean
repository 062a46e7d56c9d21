import Irip.Models.Transactions

/-!
# `Models.Lifecycle` — when the states of models and versions are what they promise

They are if and only if a commit finds the status its call has read, or the one it is to be: `Settled`.
-/

namespace Irip.Models

open Runs

/-! ## Observations -/

/-- The next status of a version. -/
def Status.next : Status → Option Status
  | .draft => some .pendingValidation
  | .pendingValidation => some .validated
  | .validated => some .published
  | .published => none
  | .deprecated => none

/-- A version appears as a draft, and from then on stays, under its model, and takes one status after the other. -/
def Moves : Option ModelVersion → Option ModelVersion → Prop
  | none, none => True
  | none, some r' => r'.status = .draft
  | some r, some r' => r'.modelId = r.modelId ∧ (r'.status = r.status ∨ r.status.next = some r'.status)
  | some _, none => False

/-- All versions do. -/
def Moving (d d' : Tables) : Prop := ∀ v, Moves (d.versions.get? v) (d'.versions.get? v)

/-- `current_version_id` points to a published version of the model. -/
def PointsToPublished (d : Tables) (modelId : Uuid) (row : Model) : Prop :=
  ∃ v, row.currentVersionId = some v ∧ VersionOf d modelId v (fun r => r.status = .published)

/-- The status of a model says whether it points to a published version and has not been deprecated since. -/
def StatusTells (since : Uuid → Bool) (d : Tables) : Prop :=
  ∀ m row, d.models.get? m = some row →
    (row.status = .published ↔ PointsToPublished d m row ∧ since m = false)

/-- The call that commits in a transition, with its writes. -/
def committing (t : Transition Sys Step) : Option (Call × List Write) :=
  match t.act with
  | .service (.commit i) => t.pre.server.sessions[i]?.map (fun s => (s.call, s.writes))
  | _ => none

/-- The prediction that reads its version and executes it in a transition. -/
def executing (t : Transition Sys Step) : Option Prediction :=
  match t.act with
  | .execute i => t.pre.running[i]?
  | _ => none

/-- Which models have been deprecated since they were last published, after a call. -/
def Call.marks (since : Uuid → Bool) : Call → Uuid → Bool
  | .publish modelId _ => Function.update since modelId false
  | .rollback modelId _ => Function.update since modelId false
  | .deprecateModel modelId => Function.update since modelId true
  | _ => since

/-- The same after a transition. -/
def marks (since : Uuid → Bool) (t : Transition Sys Step) : Uuid → Bool :=
  match committing t with
  | none => since
  | some (c, _) => c.marks since

/-- What a transition owes to the life of the models. -/
structure Lawful (since : Uuid → Bool) (t : Transition Sys Step) : Prop where
  moving : Moving t.pre.tables t.post.tables
  tells : StatusTells (marks since t) t.post.tables
  executed : ∀ q ∈ executing t, ∀ row, readVersion t.pre.tables q.versionId = .ok row →
    row.status = .published ∧ ∃ m, t.pre.tables.models.get? row.modelId = some m ∧ m.status ≠ .deprecated

/-! ## The condition -/

/-- The UPDATE of a version finds the status that was read, or the one that it sets. The UPDATE of a model that was read
with the status it is to have leaves the column out: it has to find that status. -/
def Write.Settled (d : Tables) : Write → Prop
  | .insertVersion _ _ => True
  | .updateModel id old new => ∀ r ∈ d.models.get? id, old.status = new.status → r.status = new.status
  | .updateVersion id old new => ∀ r ∈ d.versions.get? id, r.status = old.status ∨ r.status = new.status

/-- A prediction finds its model not deprecated, and, if it was called for a version, that version published. -/
def Prediction.Settled (d : Tables) (q : Prediction) : Prop :=
  ∀ row ∈ d.versions.get? q.versionId, (q.modelId = none → row.status = .published) ∧
    ∀ m ∈ d.models.get? row.modelId, m.status ≠ .deprecated

/-- What a transition has to find. -/
def Settled (t : Transition Sys Step) : Prop :=
  (∀ s ∈ committing t, ∀ w ∈ s.2, w.Settled t.pre.tables) ∧
    ∀ q ∈ executing t, q.Settled t.pre.tables

instance (d : Tables) (w : Write) : Decidable (w.Settled d) := by
  cases w <;> (unfold Write.Settled; infer_instance)

instance (d : Tables) (q : Prediction) : Decidable (q.Settled d) := by
  unfold Prediction.Settled
  infer_instance

instance (t : Transition Sys Step) : Decidable (Settled t) := by
  unfold Settled
  infer_instance

variable {since : Uuid → Bool} {d d' : Tables} {c : Call} {ws ws' : List Write}

/-! ## Versions -/

theorem Moves.refl (o : Option ModelVersion) : Moves o o := by
  cases o with
  | none => exact trivial
  | some r => exact ⟨rfl, .inl rfl⟩

theorem Status.next_inj {a b c : Status} (ha : a.next = some c) (hb : b.next = some c) : a = b := by
  cases a <;> cases ha <;> cases b <;> first | rfl | cases hb

variable {v m : Uuid} {gone : Bool}

theorem Moving.version (h : Moving d d') {r : ModelVersion} (hr : d.versions.get? v = some r) :
    ∃ r', d'.versions.get? v = some r' ∧ r'.modelId = r.modelId ∧
      (r.status = .published → r'.status = .published) := by
  have hmoves := h v
  rw [hr] at hmoves
  cases hr' : d'.versions.get? v with
  | none =>
    rw [hr'] at hmoves
    exact hmoves.elim
  | some r' =>
    rw [hr'] at hmoves
    obtain ⟨hmodel, hstatus⟩ := hmoves
    refine ⟨r', rfl, hmodel, fun hp => ?_⟩
    rcases hstatus with hsame | hnext
    · exact hsame.trans hp
    · rw [hp] at hnext
      cases hnext

theorem VersionOf.moving (h : VersionOf d m v (fun r => r.status = .published)) (hd : Moving d d') :
    VersionOf d' m v (fun r => r.status = .published) := by
  obtain ⟨r, hr, hmodel, hp⟩ := h
  obtain ⟨r', hr', hmodel', hkeep⟩ := hd.version hr
  exact ⟨r', hr', hmodel'.trans hmodel, hkeep hp⟩

theorem moving_updateVersion {old new : ModelVersion} (hnext : old.status.next = some new.status) :
    Moving d ((Write.updateVersion v old new).apply d) ↔ (Write.updateVersion v old new).Settled d := by
  have hne : old.status ≠ new.status := by
    intro heq
    rw [heq] at hnext
    cases hstatus : new.status <;> simp [hstatus, Status.next] at hnext
  have hget : ∀ u, ((Write.updateVersion v old new).apply d).versions.get? u =
      if u = v then (d.versions.get? u).map (old.write new) else d.versions.get? u :=
    fun u => Dict.get?_modify d.versions v u (old.write new)
  constructor
  · intro h r hr
    have hmoves := h v
    rw [hget, if_pos rfl, hr] at hmoves
    obtain ⟨-, hstatus⟩ := hmoves
    rw [ModelVersion.write_status, written, if_neg hne] at hstatus
    rcases hstatus with hsame | hstep
    · exact .inr hsame.symm
    · exact .inl (Status.next_inj hstep hnext)
  · intro h u
    rw [hget]
    split
    · next heq =>
        subst heq
        cases hr : d.versions.get? u with
        | none => exact trivial
        | some r =>
          refine ⟨rfl, ?_⟩
          rw [ModelVersion.write_status, written, if_neg hne]
          rcases h r hr with hold | hnew
          · exact .inr (hold ▸ hnext)
          · exact .inl hnew.symm
    · exact Moves.refl _

theorem moving_insertVersion {row : ModelVersion} (hnew : d.versions.get? v = none)
    (hdraft : row.status = .draft) : Moving d ((Write.insertVersion v row).apply d) := by
  intro u
  show Moves _ ((d.versions.set v row).get? u)
  rw [Dict.get?_set]
  split
  · next heq =>
      subst heq
      rw [hnew]
      exact hdraft
  · exact Moves.refl _

/-! ## Models -/

/-- Where a model is with its pointer. -/
structure Placed (gone : Bool) (d : Tables) (modelId : Uuid) (row : Model) : Prop where
  points : ∀ v, row.currentVersionId = some v → VersionOf d modelId v (fun r => r.status = .published)
  draft : row.status = .draft → row.currentVersionId = none
  published : row.status = .published → row.currentVersionId ≠ none ∧ gone = false
  deprecated : row.status = .deprecated → gone = true
  statuses : row.status = .draft ∨ row.status = .published ∨ row.status = .deprecated

/-- All models are in their place. -/
def AllPlaced (since : Uuid → Bool) (d : Tables) : Prop :=
  ∀ m row, d.models.get? m = some row → Placed (since m) d m row

theorem Placed.moving {row : Model} (h : Placed gone d m row) (hd : Moving d d') : Placed gone d' m row :=
  ⟨fun v hv => (h.points v hv).moving hd, h.draft, h.published, h.deprecated, h.statuses⟩

theorem Placed.status_iff {row : Model} (h : Placed gone d m row) :
    row.status = .published ↔ PointsToPublished d m row ∧ gone = false := by
  constructor
  · intro hp
    obtain ⟨hne, hgone⟩ := h.published hp
    obtain ⟨v, hv⟩ := Option.ne_none_iff_exists'.mp hne
    exact ⟨⟨v, hv, h.points v hv⟩, hgone⟩
  · rintro ⟨⟨v, hv, -⟩, hgone⟩
    rcases h.statuses with hdraft | hp | hdeprecated
    · rw [h.draft hdraft] at hv
      cases hv
    · exact hp
    · rw [h.deprecated hdeprecated] at hgone
      cases hgone

theorem AllPlaced.tells (h : AllPlaced since d) : StatusTells since d := fun m row hrow => (h m row hrow).status_iff

theorem AllPlaced.moving (h : AllPlaced since d) (hd : Moving d d') (hmodels : d'.models = d.models) :
    AllPlaced since d' := by
  intro m row hrow
  rw [hmodels] at hrow
  exact (h m row hrow).moving hd

theorem AllPlaced.modify (h : AllPlaced since d) (hd : Moving d d') {f : Model → Model}
    (hmodels : d'.models = d.models.modify m f)
    (hrow : ∀ r, d.models.get? m = some r → Placed gone d' m (f r)) : AllPlaced (Function.update since m gone) d' := by
  intro m' row' hrow'
  rw [hmodels, Dict.get?_modify] at hrow'
  split at hrow'
  · next heq =>
      subst heq
      obtain ⟨r, hr, rfl⟩ := Option.map_eq_some_iff.mp hrow'
      rw [Function.update_self]
      exact hrow r hr
  · next hne =>
      rw [Function.update_of_ne hne]
      exact (h m' row' hrow').moving hd

section Publish

variable {m v : Uuid} {model r : Model} {lock : Int} {gone : Bool}

/-- After `publish` or `rollback` the model points to a published version: the one it was published with, or, if that
is the one it was read with, the one that has taken its place. -/
theorem Placed.points_publish (h : Placed gone d m r) (hlater : Later model r) (hd : Moving d d')
    (hv : VersionOf d' m v (fun r => r.status = .published)) :
    PointsToPublished d' m (model.write ⟨.published, some v, lock⟩ r) := by
  unfold PointsToPublished
  rw [Model.write_currentVersionId, written]
  split
  · next hsame =>
      have hne : r.currentVersionId ≠ none := hlater.current (by rw [hsame]; exact Option.some_ne_none v)
      obtain ⟨u, hu⟩ := Option.ne_none_iff_exists'.mp hne
      exact ⟨u, hu, (h.points u hu).moving hd⟩
  · exact ⟨v, rfl, hv⟩

theorem Model.write_published (hs : model.status = .published → r.status = .published) :
    (model.write ⟨.published, some v, lock⟩ r).status = .published := by
  rw [Model.write_status, written]
  split
  · next hsame => exact hs hsame
  · rfl

theorem Placed.publish (h : Placed gone d m r) (hlater : Later model r) (hd : Moving d d')
    (hv : VersionOf d' m v (fun r => r.status = .published))
    (hs : model.status = .published → r.status = .published) :
    Placed false d' m (model.write ⟨.published, some v, lock⟩ r) := by
  obtain ⟨u, hu, hpublished⟩ : PointsToPublished d' m (model.write ⟨.published, some v, lock⟩ r) :=
    h.points_publish hlater hd hv
  have hstatus : (model.write ⟨.published, some v, lock⟩ r).status = .published := Model.write_published hs
  constructor
  · intro u' hu'
    obtain rfl := Option.some.inj (hu.symm.trans hu')
    exact hpublished
  · rw [hstatus]
    exact nofun
  · intro _
    rw [hu]
    exact ⟨Option.some_ne_none u, rfl⟩
  · rw [hstatus]
    exact nofun
  · exact .inr (.inl hstatus)

end Publish

theorem Placed.deprecate {model r : Model} {lock : Int} (h : Placed gone d m r)
    (hd : Moving d d') (hs : model.status = .deprecated → r.status = .deprecated) :
    Placed true d' m (model.write { model with status := .deprecated, lockVersion := lock } r) := by
  have hpointer : (model.write { model with status := .deprecated, lockVersion := lock } r).currentVersionId =
      r.currentVersionId := if_pos rfl
  have hstatus : (model.write { model with status := .deprecated, lockVersion := lock } r).status = .deprecated := by
    rw [Model.write_status, written]
    split
    · next hsame => exact hs hsame
    · rfl
  constructor
  · intro v hv
    rw [hpointer] at hv
    exact (h.points v hv).moving hd
  · rw [hstatus]
    exact nofun
  · rw [hstatus]
    exact nofun
  · exact fun _ => rfl
  · exact .inr (.inr hstatus)

/-! ## Commits -/

/-- `publish` and `rollback` are lawful exactly if the UPDATE of the model is settled. -/
theorem publish_tells_iff {model : Model} {lock : Int} (hp : AllPlaced since d) (was : ModelWas d m model)
    (hd : Moving d d') (hmodels : d'.models = d.models.modify m (model.write ⟨.published, some v, lock⟩))
    (hv : VersionOf d' m v (fun r => r.status = .published)) :
    ((Write.updateModel m model ⟨.published, some v, lock⟩).Settled d ↔
      StatusTells (Function.update since m false) d') ∧
    ((Write.updateModel m model ⟨.published, some v, lock⟩).Settled d →
      AllPlaced (Function.update since m false) d') := by
  obtain ⟨r, hr, hlater⟩ := was
  have hplaced : (Write.updateModel m model ⟨.published, some v, lock⟩).Settled d →
      AllPlaced (Function.update since m false) d' := by
    intro hs
    refine hp.modify hd hmodels fun r' hr' => ?_
    obtain rfl := Option.some.inj (hr.symm.trans hr')
    exact (hp m r hr).publish hlater hd hv (hs r hr)
  refine ⟨⟨fun hs => (hplaced hs).tells, ?_⟩, hplaced⟩
  intro htells r' hr' hsame
  obtain rfl := Option.some.inj (hr.symm.trans hr')
  have hrow : d'.models.get? m = some (model.write ⟨.published, some v, lock⟩ r) := by
    rw [hmodels, Dict.get?_modify, if_pos rfl, hr]
    rfl
  have hstatus := (htells m _ hrow).mpr ⟨(hp m r hr).points_publish hlater hd hv, Function.update_self ..⟩
  rw [Model.write_status, written, if_pos hsame] at hstatus
  exact hstatus

theorem deprecate_tells_iff {model : Model} {lock : Int} (hp : AllPlaced since d) (was : ModelWas d m model)
    (hd : Moving d d')
    (hmodels : d'.models = d.models.modify m (model.write { model with status := .deprecated, lockVersion := lock })) :
    ((Write.updateModel m model { model with status := .deprecated, lockVersion := lock }).Settled d ↔
      StatusTells (Function.update since m true) d') ∧
    ((Write.updateModel m model { model with status := .deprecated, lockVersion := lock }).Settled d →
      AllPlaced (Function.update since m true) d') := by
  obtain ⟨r, hr, hlater⟩ := was
  have hplaced : (Write.updateModel m model { model with status := .deprecated, lockVersion := lock }).Settled d →
      AllPlaced (Function.update since m true) d' := by
    intro hs
    refine hp.modify hd hmodels fun r' hr' => ?_
    obtain rfl := Option.some.inj (hr.symm.trans hr')
    exact (hp m r hr).deprecate hd (hs r hr)
  refine ⟨⟨fun hs => (hplaced hs).tells, ?_⟩, hplaced⟩
  intro htells r' hr' hsame
  obtain rfl := Option.some.inj (hr.symm.trans hr')
  have hsame : model.status = .deprecated := hsame
  rcases (hp m r hr).statuses with hdraft | hpublished | hdeprecated
  · -- a model that has left the drafts has not come back
    exact absurd hdraft (hlater.status (by rw [hsame]; exact nofun))
  · have hrow : d'.models.get? m =
        some (model.write { model with status := .deprecated, lockVersion := lock } r) := by
      rw [hmodels, Dict.get?_modify, if_pos rfl, hr]
      rfl
    have hstatus : (model.write { model with status := .deprecated, lockVersion := lock } r).status = .published := by
      rw [Model.write_status, written, if_pos hsame]
      exact hpublished
    obtain ⟨-, hgone⟩ := (htells m _ hrow).mp hstatus
    rw [Function.update_self] at hgone
    cases hgone
  · exact hdeprecated

/-- The version of `publish`, and of a `rollback` that publishes, is published. -/
theorem published_updateVersion {old : ModelVersion} {now : Option Time}
    (found : VersionOf d m v (fun _ => True)) (source : old.status = .validated) :
    VersionOf ((Write.updateVersion v old { old with status := .published, publishedAt := now }).apply d) m v
      (fun r => r.status = .published) := by
  obtain ⟨r, hr, hmodel, -⟩ := found
  refine ⟨old.write { old with status := .published, publishedAt := now } r, ?_, hmodel, ?_⟩
  · show (d.versions.modify v _).get? v = _
    rw [Dict.get?_modify, if_pos rfl, hr]
    rfl
  · show (old.write _ r).status = _
    rw [ModelVersion.write_status, written, source]
    rfl

theorem advance_lawful_iff {old new : ModelVersion} (hp : AllPlaced since d)
    (hnext : old.status.next = some new.status) (hmarks : c.marks since = since) (hws : ws = [.updateVersion v old new]) :
    (Moving d (engine.view ws d) ∧ StatusTells (c.marks since) (engine.view ws d) ↔ ∀ w ∈ ws, w.Settled d) ∧
    ((∀ w ∈ ws, w.Settled d) → AllPlaced (c.marks since) (engine.view ws d)) := by
  subst hws
  have hmoving : Moving d (engine.view [.updateVersion v old new] d) ↔ (Write.updateVersion v old new).Settled d :=
    moving_updateVersion hnext
  have hplaced : (Write.updateVersion v old new).Settled d → AllPlaced since (engine.view [.updateVersion v old new] d) :=
    fun hs => hp.moving (hmoving.mpr hs) rfl
  rw [List.forall_mem_singleton, hmarks]
  exact ⟨⟨fun hlawful => hmoving.mp hlawful.1, fun hs => ⟨hmoving.mpr hs, (hplaced hs).tells⟩⟩, hplaced⟩

theorem publish_lawful_iff {model : Model} {old : ModelVersion} {lock : Int} {now : Option Time}
    (hp : AllPlaced since d) (was : ModelWas d m model) (found : VersionOf d m v (fun _ => True))
    (source : old.status = .validated)
    (hws : ws = [.updateModel m model ⟨.published, some v, lock⟩,
      .updateVersion v old { old with status := .published, publishedAt := now }]) :
    (Moving d (engine.view ws d) ∧ StatusTells (Function.update since m false) (engine.view ws d) ↔
      ∀ w ∈ ws, w.Settled d) ∧
    ((∀ w ∈ ws, w.Settled d) → AllPlaced (Function.update since m false) (engine.view ws d)) := by
  subst hws
  have hmoving : Moving d (engine.view [.updateModel m model ⟨.published, some v, lock⟩,
      .updateVersion v old { old with status := .published, publishedAt := now }] d) ↔
      (Write.updateVersion v old { old with status := .published, publishedAt := now }).Settled d :=
    moving_updateVersion (by rw [source]; rfl)
  rw [List.forall_mem_cons, List.forall_mem_singleton]
  -- the UPDATE of the version decides about the moves, the one of the model about its status
  constructor
  · constructor
    · rintro ⟨hd, htells⟩
      obtain ⟨hiff, -⟩ := publish_tells_iff hp was hd rfl (published_updateVersion found source)
      exact ⟨hiff.mpr htells, hmoving.mp hd⟩
    · rintro ⟨hmodel, hversion⟩
      have hd := hmoving.mpr hversion
      obtain ⟨hiff, -⟩ := publish_tells_iff hp was hd rfl (published_updateVersion found source)
      exact ⟨hd, hiff.mp hmodel⟩
  · rintro ⟨hmodel, hversion⟩
    obtain ⟨-, hplaced⟩ := publish_tells_iff hp was (hmoving.mpr hversion) rfl (published_updateVersion found source)
    exact hplaced hmodel

/-- **A commit is lawful exactly if its writes are settled**, and then leaves all models in their place. -/
theorem Committed.lawful_iff (h : Committed d c ws) (hp : AllPlaced since d) :
    (Moving d (engine.view ws d) ∧ StatusTells (c.marks since) (engine.view ws d) ↔ ∀ w ∈ ws, w.Settled d) ∧
    ((∀ w ∈ ws, w.Settled d) → AllPlaced (c.marks since) (engine.view ws d)) := by
  cases h with
  | @createVersion modelId id row owner new draft =>
    have hd : Moving d ((Write.insertVersion id row).apply d) := moving_insertVersion new draft
    have hplaced : AllPlaced since ((Write.insertVersion id row).apply d) := hp.moving hd rfl
    refine ⟨⟨fun _ w hw => ?_, fun _ => ⟨hd, hplaced.tells⟩⟩, fun _ => hplaced⟩
    obtain rfl := List.mem_singleton.mp hw
    exact trivial
  | @submitForValidation modelId v old source | @validate modelId v old source =>
    exact advance_lawful_iff hp (by rw [source]; rfl) rfl rfl
  | @publish modelId v model old lock now was found source
  | @republish modelId v model old lock now was found source =>
    exact publish_lawful_iff hp was found source rfl
  | @rollback modelId v model lock was found =>
    have hd : Moving d ((Write.updateModel modelId model ⟨.published, some v, lock⟩).apply d) :=
      fun u => Moves.refl _
    obtain ⟨hiff, hplaced⟩ := publish_tells_iff hp was hd rfl (found.moving hd)
    rw [List.forall_mem_singleton]
    exact ⟨⟨fun hlawful => hiff.mpr hlawful.2, fun hs => ⟨hd, hiff.mp hs⟩⟩, hplaced⟩
  | @deprecateModel modelId model lock was =>
    have hd : Moving d ((Write.updateModel modelId model
        { model with status := .deprecated, lockVersion := lock }).apply d) := fun u => Moves.refl _
    obtain ⟨hiff, hplaced⟩ := deprecate_tells_iff hp was hd rfl
    rw [List.forall_mem_singleton]
    exact ⟨⟨fun hlawful => hiff.mpr hlawful.2, fun hs => ⟨hd, hiff.mp hs⟩⟩, hplaced⟩

/-! ## What others rely on -/

theorem meets_comm {α : Type} [DecidableEq α] (x y : Option α) : meets x y = meets y x := by
  unfold meets
  by_cases h : x = y
  · rw [h]
  · have h' : ¬ y = x := fun heq => h heq.symm
    simp [h, h']

theorem conflict_comm (w w' : Write) : conflict w w' = conflict w' w := by
  unfold conflict
  rw [meets_comm w.versionId, meets_comm w.modelId, meets_comm w.claims]

theorem versionId_ne_of_free {w w' : Write} (h : conflict w w' = false) {id : Uuid} (hid : w'.versionId = some id) :
    w.versionId ≠ some id := by
  intro hw
  simp [conflict, meets, hw, hid] at h

theorem versions_view {id : Uuid} (h : ∀ w ∈ ws, w.versionId ≠ some id) :
    (engine.view ws d).versions.get? id = d.versions.get? id := by
  induction ws generalizing d with
  | nil => rfl
  | cons w ws ih =>
    rw [Engine.view_cons, ih (fun u hu => h u (List.mem_cons_of_mem _ hu))]
    have hw := h w List.mem_cons_self
    cases w with
    | insertVersion k row =>
      show (d.versions.set k row).get? id = _
      rw [Dict.get?_set, if_neg (fun heq => hw (congrArg some heq.symm))]
    | updateModel k old new => rfl
    | updateVersion k old new =>
      show (d.versions.modify k _).get? id = _
      rw [Dict.get?_modify, if_neg (fun heq => hw (congrArg some heq.symm))]

theorem Later.write {old new r : Model} (hstatus : new.status ≠ .draft)
    (hcurrent : old.currentVersionId = new.currentVersionId ∨ new.currentVersionId ≠ none) :
    Later r (old.write new r) := by
  constructor
  · intro hr
    rw [Model.write_status, written]
    split
    · exact hr
    · exact hstatus
  · intro hr
    rw [Model.write_currentVersionId, written]
    split
    · exact hr
    · next hne => exact hcurrent.resolve_left hne

theorem later_modify {f : Model → Model} (hmodels : d'.models = d.models.modify m f)
    (hf : ∀ r, Later r (f r)) (k : Uuid) (r : Model) (hr : d.models.get? k = some r) :
    ∃ r', d'.models.get? k = some r' ∧ Later r r' := by
  rw [hmodels, Dict.get?_modify]
  split
  · rw [hr]
    exact ⟨f r, rfl, hf r⟩
  · exact ⟨r, hr, .refl r⟩

theorem Committed.later (h : Committed d c ws) :
    ∀ m r, d.models.get? m = some r → ∃ r', (engine.view ws d).models.get? m = some r' ∧ Later r r' := by
  have hsame : ∀ m r, d.models.get? m = some r → ∃ r', d.models.get? m = some r' ∧ Later r r' :=
    fun _ r hr => ⟨r, hr, .refl r⟩
  cases h with
  | createVersion => exact hsame
  | submitForValidation => exact hsame
  | validate => exact hsame
  | publish | rollback | republish => exact later_modify rfl fun _ => .write nofun (.inr nofun)
  | deprecateModel => exact later_modify rfl fun _ => .write nofun (.inl rfl)

theorem Committed.rely (h : Committed d c ws) (hd : Moving d (engine.view ws d)) (hapart : engine.Apart ws ws') :
    Holds ws' d (engine.view ws d) where
  models := h.later
  versions := fun _ _ hr => hd.version hr
  created := fun _ _ hmem => versions_view fun w hw => versionId_ne_of_free (hapart w hw _ hmem) rfl

/-- Every version is one of a model. -/
def Owned (d : Tables) : Prop := ∀ v r, d.versions.get? v = some r → ∃ row, d.models.get? r.modelId = some row

theorem Committed.owned (h : Committed d c ws) (hd : Moving d (engine.view ws d)) (howned : Owned d) :
    Owned (engine.view ws d) := by
  intro v r' hr'
  have hmodel : ∃ row, d.models.get? r'.modelId = some row := by
    have hmoves := hd v
    rw [hr'] at hmoves
    cases hr : d.versions.get? v with
    | some r =>
      rw [hr] at hmoves
      rw [hmoves.1]
      exact howned v r hr
    | none =>
      -- only `create_version` makes a version
      cases h with
      | @createVersion modelId id row owner new draft =>
        have hset : (d.versions.set id row).get? v = some r' := hr'
        rw [Dict.get?_set] at hset
        split at hset
        · obtain rfl := Option.some.inj hset
          exact owner
        · rw [hr] at hset
          cases hset
      | _ => simp [engine, Write.apply, hr] at hr'
  obtain ⟨row, hrow⟩ := hmodel
  obtain ⟨row', hrow', -⟩ := h.later _ row hrow
  exact ⟨row', hrow'⟩

/-! ## Runs -/

variable {p p' : Sys}

/-- What holds between two steps. -/
structure Inv (since : Uuid → Bool) (p : Sys) : Prop where
  sound : Server.Sound engine Holds Ready p.server
  owned : Owned p.tables
  placed : AllPlaced since p.tables
  chosen : ∀ q ∈ p.running, ∀ m, q.modelId = some m →
    VersionOf p.tables m q.versionId (fun r => r.status = .published)

theorem AllPlaced.chooseVersion (h : AllPlaced since d) (hv : chooseVersion d m = .ok v) :
    VersionOf d m v (fun r => r.status = .published) := by
  unfold Models.chooseVersion currentVersion at hv
  split at hv
  · cases hv
  · next model hmodel =>
      split at hv
      · cases hv
      · next u hu =>
          cases hv
          exact (h m model hmodel).points v hu

theorem lawful_iff_of_same {t : Transition Sys Step} (hp : AllPlaced since t.pre.tables)
    (hsame : t.post.tables = t.pre.tables) (hcommitting : committing t = none) :
    (Lawful since t ↔ ∀ q ∈ executing t, ∀ row, readVersion t.pre.tables q.versionId = .ok row →
      row.status = .published ∧ ∃ m, t.pre.tables.models.get? row.modelId = some m ∧ m.status ≠ .deprecated) ∧
    marks since t = since := by
  have hmarks : marks since t = since := by rw [marks, hcommitting]
  refine ⟨⟨fun h => h.executed, fun h => ⟨?_, ?_, h⟩⟩, hmarks⟩
  · rw [hsame]
    exact fun v => Moves.refl _
  · rw [hmarks, hsame]
    exact hp.tells

theorem executed_iff (hp : Inv since p) {q : Prediction} (hq : q ∈ p.running) :
    (∀ row, readVersion p.tables q.versionId = .ok row →
      row.status = .published ∧ ∃ m, p.tables.models.get? row.modelId = some m ∧ m.status ≠ .deprecated) ↔
    q.Settled p.tables := by
  have hread : ∀ row, readVersion p.tables q.versionId = .ok row ↔ p.tables.versions.get? q.versionId = some row := by
    intro row
    unfold readVersion
    cases p.tables.versions.get? q.versionId with
    | none => exact iff_of_false nofun nofun
    | some r => exact ⟨fun h => congrArg some (Except.ok.inj h), fun h => congrArg Except.ok (Option.some.inj h)⟩
  refine forall_congr' fun row => ?_
  rw [hread]
  refine imp_congr_right fun hrow => ?_
  obtain ⟨m, hm⟩ := hp.owned _ row hrow
  constructor
  · rintro ⟨hstatus, m', hm', hne⟩
    refine ⟨fun _ => hstatus, fun m'' hm'' => ?_⟩
    obtain rfl := Option.some.inj (hm'.symm.trans hm'')
    exact hne
  · rintro ⟨hstatus, hne⟩
    refine ⟨?_, m, hm, hne m hm⟩
    cases hmodel : q.modelId with
    | none => exact hstatus hmodel
    | some modelId =>
      obtain ⟨r, hr, -, hpublished⟩ := hp.chosen q hq modelId hmodel
      obtain rfl := Option.some.inj (hr.symm.trans hrow)
      exact hpublished

theorem Inv.sound_service (hp : Inv since p) {act : Server.Action Call Answer}
    {server : Server Call Write Op Res Exn Unit Tables} (h : p.server.step engine prog act = some server)
    (hs : Settled ⟨p, .service act, p'⟩) : Server.Sound engine Holds Ready server := by
  refine hp.sound.step_of_commit conflict_comm Holds.refl (fun ws => Holds.trans ws) keeps_prog ?_ h
  rintro i c ws v rfl hi hcommitted ws' hapart
  have hcommitting : committing ⟨p, .service (.commit i), p'⟩ = some (c, ws) := by
    show (p.server.sessions[i]?).map _ = _
    rw [hi]
    rfl
  have hmoving := ((hcommitted.lawful_iff hp.placed).1.mpr (hs.1 _ hcommitting)).1
  exact hcommitted.rely hmoving hapart

theorem Inv.of_same (hp : Inv since p) (hsame : p'.tables = p.tables)
    (hsound : Server.Sound engine Holds Ready p'.server)
    (hrunning : ∀ q ∈ p'.running, q ∈ p.running ∨
      ∀ m, q.modelId = some m → VersionOf p.tables m q.versionId (fun r => r.status = .published)) : Inv since p' := by
  refine ⟨hsound, ?_, ?_, ?_⟩
  · rw [hsame]
    exact hp.owned
  · rw [hsame]
    exact hp.placed
  · intro q hq m hm
    rw [hsame]
    rcases hrunning q hq with hold | hnew
    · exact hp.chosen q hold m hm
    · exact hnew m hm

theorem step_prediction {a : Step} (h : step p a = some p') (ha : ∀ act, a ≠ .service act) (hp : Inv since p) :
    p'.server = p.server ∧ ∀ q ∈ p'.running, q ∈ p.running ∨
      ∀ m, q.modelId = some m → VersionOf p.tables m q.versionId (fun r => r.status = .published) := by
  cases a with
  | service act => exact absurd rfl (ha act)
  | predict modelId =>
    simp only [step] at h
    split at h
    · next v hv =>
        obtain rfl := Option.some.inj h
        refine ⟨rfl, fun q hq => (List.mem_append.mp hq).imp_right fun hnew m hm => ?_⟩
        obtain rfl := List.mem_singleton.mp hnew
        obtain rfl := Option.some.inj hm
        exact hp.placed.chooseVersion hv
    · obtain rfl := Option.some.inj h
      exact ⟨rfl, fun q hq => .inl hq⟩
  | predictVersion versionId =>
    obtain rfl := Option.some.inj h
    refine ⟨rfl, fun q hq => (List.mem_append.mp hq).imp_right fun hnew m hm => ?_⟩
    obtain rfl := List.mem_singleton.mp hnew
    cases hm
  | execute i =>
    simp only [step] at h
    split at h
    · obtain rfl := Option.some.inj h
      exact ⟨rfl, fun q hq => .inl (List.mem_of_mem_eraseIdx hq)⟩
    · cases h

theorem lawful_commit {i : Nat} (h : step p (.service (.commit i)) = some p') (hp : Inv since p) :
    (Lawful since ⟨p, .service (.commit i), p'⟩ ↔ Settled ⟨p, .service (.commit i), p'⟩) ∧
    (Settled ⟨p, .service (.commit i), p'⟩ → Inv (marks since ⟨p, .service (.commit i), p'⟩) p') := by
  obtain ⟨server, hserver, rfl⟩ := Option.map_eq_some_iff.mp h
  obtain ⟨c, ws, v, hi, hcommitted, htables⟩ := hp.sound.commit Holds.refl hserver
  have hcommitting : committing ⟨p, .service (.commit i), { p with server := server }⟩ = some (c, ws) := by
    show (p.server.sessions[i]?).map _ = _
    rw [hi]
    rfl
  have hmarks : marks since ⟨p, .service (.commit i), { p with server := server }⟩ = c.marks since := by
    rw [marks, hcommitting]
  have hsettled : Settled ⟨p, .service (.commit i), { p with server := server }⟩ ↔ ∀ w ∈ ws, w.Settled p.tables := by
    refine ⟨fun hs => hs.1 _ hcommitting, fun hs => ⟨fun s hs' => ?_, nofun⟩⟩
    obtain rfl := Option.some.inj (hcommitting.symm.trans hs')
    exact hs
  have hcommitted : Committed p.tables c ws := hcommitted
  have htables : server.committed = engine.view ws p.tables := htables
  obtain ⟨hiff, hplaced⟩ := hcommitted.lawful_iff hp.placed
  constructor
  · rw [hsettled, ← hiff, ← hmarks, ← htables]
    exact ⟨fun hlawful => ⟨hlawful.moving, hlawful.tells⟩, fun hboth => ⟨hboth.1, hboth.2, nofun⟩⟩
  · intro hs
    have hmoving := (hiff.mpr (hsettled.mp hs)).1
    rw [hmarks]
    constructor
    · exact hp.sound_service hserver hs
    · show Owned server.committed
      rw [htables]
      exact hcommitted.owned hmoving hp.owned
    · show AllPlaced _ server.committed
      rw [htables]
      exact hplaced (hsettled.mp hs)
    · intro q hq m hm
      show VersionOf server.committed m q.versionId _
      rw [htables]
      exact (hp.chosen q hq m hm).moving hmoving

theorem lawful_quiet {act : Server.Action Call Answer} (hact : ∀ i, act ≠ .commit i)
    (h : step p (.service act) = some p') (hp : Inv since p) :
    (Lawful since ⟨p, .service act, p'⟩ ↔ Settled ⟨p, .service act, p'⟩) ∧
    (Settled ⟨p, .service act, p'⟩ → Inv (marks since ⟨p, .service act, p'⟩) p') := by
  obtain ⟨server, hserver, rfl⟩ := Option.map_eq_some_iff.mp h
  have hsame : server.committed = p.server.committed := Server.committed_step hserver hact
  have hcommitting : committing ⟨p, .service act, { p with server := server }⟩ = none := by
    cases act with
    | commit i => exact absurd rfl (hact i)
    | _ => rfl
  have hsettled : Settled ⟨p, .service act, { p with server := server }⟩ := by
    refine ⟨?_, nofun⟩
    rw [hcommitting]
    exact nofun
  obtain ⟨hiff, hmarks⟩ := lawful_iff_of_same (t := ⟨p, .service act, { p with server := server }⟩) hp.placed
    hsame hcommitting
  refine ⟨iff_of_true (hiff.mpr nofun) hsettled, fun _ => ?_⟩
  rw [hmarks]
  exact hp.of_same hsame (hp.sound_service hserver hsettled) fun q hq => .inl hq

theorem lawful_prediction {a : Step} (ha : ∀ act, a ≠ .service act) (h : step p a = some p') (hp : Inv since p) :
    (Lawful since ⟨p, a, p'⟩ ↔ Settled ⟨p, a, p'⟩) ∧
    (Settled ⟨p, a, p'⟩ → Inv (marks since ⟨p, a, p'⟩) p') := by
  have hcommitting : committing ⟨p, a, p'⟩ = none := by
    cases a with
    | service act => exact absurd rfl (ha act)
    | _ => rfl
  have hexecuting : ∀ q ∈ executing ⟨p, a, p'⟩, q ∈ p.running := by
    intro q hq
    cases a with
    | execute i => exact List.mem_of_getElem? hq
    | _ => cases hq
  obtain ⟨hserver, hrunning⟩ := step_prediction h ha hp
  have hsame : p'.tables = p.tables := congrArg Server.committed hserver
  obtain ⟨hiff, hmarks⟩ := lawful_iff_of_same (t := ⟨p, a, p'⟩) hp.placed hsame hcommitting
  have hcommits : ∀ s ∈ committing ⟨p, a, p'⟩, ∀ w ∈ s.2, w.Settled p.tables := by
    rw [hcommitting]
    exact nofun
  constructor
  · rw [hiff]
    constructor
    · exact fun hall => ⟨hcommits, fun q hq => (executed_iff hp (hexecuting q hq)).mp (hall q hq)⟩
    · exact fun hs q hq => (executed_iff hp (hexecuting q hq)).mpr (hs.2 q hq)
  · intro _
    rw [hmarks]
    exact hp.of_same hsame (hserver ▸ hp.sound) hrunning

/-- **One step.** Between two states of the service, lawful and settled is the same, and what is settled keeps the
invariant. -/
theorem lawful_step {a : Step} (h : step p a = some p') (hp : Inv since p) :
    (Lawful since ⟨p, a, p'⟩ ↔ Settled ⟨p, a, p'⟩) ∧
    (Settled ⟨p, a, p'⟩ → Inv (marks since ⟨p, a, p'⟩) p') := by
  cases a with
  | service act =>
    cases act with
    | commit i => exact lawful_commit h hp
    | call c | step i a | abort i => exact lawful_quiet (fun _ => nofun) h hp
  | predict modelId | predictVersion versionId | execute i => exact lawful_prediction (fun _ => nofun) h hp

/-- The service with its models, before they have any version. -/
def start (models : Dict Uuid Model) : Sys := { server := { committed := { models := models }, sessions := [] } }

/-- What `create_model` leaves. -/
def Created (models : Dict Uuid Model) : Prop :=
  ∀ m row, models.get? m = some row → row.status = .draft ∧ row.currentVersionId = none

theorem inv_start {models : Dict Uuid Model} (h : Created models) : Inv (fun _ => false) (start models) where
  sound := ⟨fun _ _ hs => (by cases hs), fun _ _ _ _ _ hs => (by cases hs)⟩
  owned := fun _ _ hr => by cases hr
  placed := by
    -- a draft without pointer is in its place
    intro m row hrow
    obtain ⟨hstatus, hpointer⟩ := h m row hrow
    refine ⟨?_, fun _ => hpointer, ?_, ?_, .inl hstatus⟩
    · rw [hpointer]
      exact nofun
    · rw [hstatus]
      exact nofun
    · rw [hstatus]
      exact nofun
  chosen := fun _ hq => by cases hq

/-- **The lifecycle.** In every run of the service, versions move along from draft to published, the status of each
model tells whether it is published and not deprecated since, and predictions are executed with published versions
of models that are not deprecated, exactly if every UPDATE finds the status its call has read or is to set, and
every prediction a published version and a model that is not deprecated. -/
theorem lawful_iff_settled {models : Dict Uuid Model} (hmodels : Created models) {ts : List (Transition Sys Step)}
    (hr : Run step (start models) ts p') :
    Annotated marks Lawful (fun _ => false) ts ↔ ∀ t ∈ ts, Settled t :=
  hr.annotated_iff (R := Inv) (fun h hp => lawful_step h hp) (inv_start hmodels)

/-! ### Two runs -/

/-- The four calls that publish the first version `v` of a model `m`, each in its transaction. -/
def published : List Step :=
  [.service (.call (.createVersion "m")), .service (.step 0 {}), .service (.step 0 {}), .service (.step 0 { id := "v" }),
   .service (.step 0 {}), .service (.commit 0),
   .service (.call (.submitForValidation "m" "v")), .service (.step 1 {}), .service (.step 1 {}), .service (.commit 1),
   .service (.call (.validate "m" "v")), .service (.step 2 {}), .service (.step 2 {}), .service (.commit 2),
   .service (.call (.publish "m" "v")), .service (.step 3 {}), .service (.step 3 {}), .service (.step 3 {}),
   .service (.step 3 {}), .service (.step 3 {}), .service (.commit 3)]

/-- The model is published and used. -/
def used : List (Transition Sys Step) := play step (start (.ofList [("m", {})])) (published ++ [.predict "m", .execute 0])

/-- The model is published, deprecated, and then used. -/
def usedLate : List (Transition Sys Step) := play step (start (.ofList [("m", {})])) (published ++
  [.service (.call (.deprecateModel "m")), .service (.step 4 {}), .service (.step 4 {}), .service (.commit 4),
   .predict "m", .execute 0])

theorem created_single : Created (.ofList [("m", {})]) := by
  intro m row hrow
  have hmem := Dict.mem_of_get?_ofList hrow
  obtain ⟨rfl, rfl⟩ : m = "m" ∧ row = {} := by simpa using hmem
  exact ⟨rfl, rfl⟩

theorem lawful_used : (used.map executing).getLast? = some (some ⟨"v", some "m"⟩) ∧
    Annotated marks Lawful (fun _ => false) used :=
  ⟨by decide +kernel, (lawful_iff_settled created_single (play_run _ _)).mpr (by decide +kernel)⟩

theorem not_lawful_usedLate : ¬ Annotated marks Lawful (fun _ => false) usedLate := by
  intro h
  -- what is executed is a version of a model that is not deprecated
  have hall : Annotated marks (fun _ t => ∀ q ∈ executing t, ∀ row ∈ t.pre.tables.versions.get? q.versionId,
      ∀ m ∈ t.pre.tables.models.get? row.modelId, m.status ≠ .deprecated) (fun _ => false) usedLate := by
    refine h.imp fun since t hlawful q hq row hrow m hm => ?_
    have hread : readVersion t.pre.tables q.versionId = .ok row := by
      rw [readVersion, Option.mem_def.mp hrow]
    obtain ⟨-, m', hm', hne⟩ := hlawful.executed q hq row hread
    obtain rfl := Option.some.inj (hm'.symm.trans hm)
    exact hne
  exact absurd hall (by decide +kernel)

end Irip.Models
