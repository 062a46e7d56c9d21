import Irip.Models.Service

/-!
# `Models.Transactions` — what a call of the model service relies on and commits

`Holds` is what a transaction can rely on while others commit; `Committed`, what it has written at its end.
-/

namespace Irip.Models

/-! ## Rely -/

/-- `r` is what the row `old` has become: it has not gone back to being a draft, and has not lost its version. -/
structure Later (old r : Model) : Prop where
  status : old.status ≠ .draft → r.status ≠ .draft
  current : old.currentVersionId ≠ none → r.currentVersionId ≠ none

theorem Later.refl (r : Model) : Later r r := ⟨id, id⟩

theorem Later.trans {r r' r'' : Model} (h : Later r r') (h' : Later r' r'') : Later r r'' :=
  ⟨fun hr => h'.status (h.status hr), fun hr => h'.current (h.current hr)⟩

/-- What a transaction that has written `ws` can rely on: models stay; versions stay, and stay those of their models; a
version that is published stays published; and nobody else takes the key of a version it has created. -/
structure Holds (ws : List Write) (d d' : Tables) : Prop where
  models : ∀ m r, d.models.get? m = some r → ∃ r', d'.models.get? m = some r' ∧ Later r r'
  versions : ∀ v r, d.versions.get? v = some r → ∃ r', d'.versions.get? v = some r' ∧ r'.modelId = r.modelId ∧
    (r.status = .published → r'.status = .published)
  created : ∀ id row, Write.insertVersion id row ∈ ws → d'.versions.get? id = d.versions.get? id

theorem Holds.refl (ws : List Write) (d : Tables) : Holds ws d d :=
  ⟨fun _ r h => ⟨r, h, .refl r⟩, fun _ r h => ⟨r, h, rfl, id⟩, fun _ _ _ => rfl⟩

theorem Holds.trans (ws : List Write) {d d' d'' : Tables} (h : Holds ws d d') (h' : Holds ws d' d'') :
    Holds ws d d'' where
  models m r hr := by
    obtain ⟨r', hr', hlater⟩ := h.models m r hr
    obtain ⟨r'', hr'', hlater'⟩ := h'.models m r' hr'
    exact ⟨r'', hr'', hlater.trans hlater'⟩
  versions v r hr := by
    obtain ⟨r', hr', hmodel, hkeep⟩ := h.versions v r hr
    obtain ⟨r'', hr'', hmodel', hkeep'⟩ := h'.versions v r' hr'
    exact ⟨r'', hr'', hmodel'.trans hmodel, fun hp => hkeep' (hkeep hp)⟩
  created id row hw := (h'.created id row hw).trans (h.created id row hw)

/-! ## Postcondition -/

/-- There is such a version, and it is of that model. -/
def VersionOf (d : Tables) (modelId versionId : Uuid) (P : ModelVersion → Prop) : Prop :=
  ∃ r, d.versions.get? versionId = some r ∧ r.modelId = modelId ∧ P r

/-- The model is there, and was `old` before. -/
def ModelWas (d : Tables) (modelId : Uuid) (old : Model) : Prop :=
  ∃ r, d.models.get? modelId = some r ∧ Later old r

/-- The writes of a call that has come to its end. -/
inductive Committed (d : Tables) : Call → List Write → Prop where
  | createVersion {modelId id : Uuid} {row : ModelVersion} (owner : ∃ r, d.models.get? row.modelId = some r)
      (new : d.versions.get? id = none) (draft : row.status = .draft) :
      Committed d (.createVersion modelId) [.insertVersion id row]
  | submitForValidation {modelId versionId : Uuid} {old : ModelVersion} (source : old.status = .draft) :
      Committed d (.submitForValidation modelId versionId)
        [.updateVersion versionId old { old with status := .pendingValidation }]
  | validate {modelId versionId : Uuid} {old : ModelVersion} (source : old.status = .pendingValidation) :
      Committed d (.validate modelId versionId) [.updateVersion versionId old { old with status := .validated }]
  | publish {modelId versionId : Uuid} {model : Model} {old : ModelVersion} {lock : Int} {now : Time}
      (was : ModelWas d modelId model) (found : VersionOf d modelId versionId (fun _ => True)) (source : old.status = .validated) :
      Committed d (.publish modelId versionId)
        [.updateModel modelId model
          { status := .published, currentVersionId := some versionId, lockVersion := lock },
         .updateVersion versionId old { old with status := .published, publishedAt := some now }]
  | rollback {modelId versionId : Uuid} {model : Model} {lock : Int}
      (was : ModelWas d modelId model) (found : VersionOf d modelId versionId (fun r => r.status = .published)) :
      Committed d (.rollback modelId versionId)
        [.updateModel modelId model
          { status := .published, currentVersionId := some versionId, lockVersion := lock }]
  | republish {modelId versionId : Uuid} {model : Model} {old : ModelVersion} {lock : Int} {now : Option Time}
      (was : ModelWas d modelId model) (found : VersionOf d modelId versionId (fun _ => True)) (source : old.status = .validated) :
      Committed d (.rollback modelId versionId)
        [.updateModel modelId model
          { status := .published, currentVersionId := some versionId, lockVersion := lock },
         .updateVersion versionId old { old with status := .published, publishedAt := now }]
  | deprecateModel {modelId : Uuid} {model : Model} {lock : Int} (was : ModelWas d modelId model) :
      Committed d (.deprecateModel modelId)
        [.updateModel modelId model { model with status := .deprecated, lockVersion := lock }]

variable {d d' : Tables} {ws ws' : List Write} {c : Call}

theorem ModelWas.holds {modelId : Uuid} {old : Model} (h : ModelWas d modelId old) (hd : Holds ws d d') :
    ModelWas d' modelId old := by
  obtain ⟨r, hr, hlater⟩ := h
  obtain ⟨r', hr', hlater'⟩ := hd.models modelId r hr
  exact ⟨r', hr', hlater.trans hlater'⟩

theorem VersionOf.holds {modelId versionId : Uuid} {P : ModelVersion → Prop} (h : VersionOf d modelId versionId P)
    (hP : ∀ r r', (r.status = .published → r'.status = .published) → P r → P r') (hd : Holds ws d d') :
    VersionOf d' modelId versionId P := by
  obtain ⟨r, hr, hmodel, hPr⟩ := h
  obtain ⟨r', hr', hmodel', hkeep⟩ := hd.versions versionId r hr
  exact ⟨r', hr', hmodel'.trans hmodel, hP r r' hkeep hPr⟩

theorem Committed.holds (h : Committed d c ws) (hd : Holds ws d d') : Committed d' c ws := by
  cases h with
  | createVersion owner new draft =>
    obtain ⟨r, hr⟩ := owner
    obtain ⟨r', hr', -⟩ := hd.models _ r hr
    exact .createVersion ⟨r', hr'⟩ ((hd.created _ _ List.mem_cons_self).trans new) draft
  | submitForValidation source => exact .submitForValidation source
  | validate source => exact .validate source
  | publish was found source => exact .publish (was.holds hd) (found.holds (fun _ _ _ h => h) hd) source
  | rollback was found => exact .rollback (was.holds hd) (found.holds (fun _ _ hkeep h => hkeep h) hd)
  | republish was found source => exact .republish (was.holds hd) (found.holds (fun _ _ _ h => h) hd) source
  | deprecateModel was => exact .deprecateModel (was.holds hd)

/-! ## Programs -/

/-- The postcondition of a call. -/
def Ready (c : Call) : Except Exn Unit → Tables × List Write → Prop
  | .ok _, x => Committed x.1 c x.2
  | .error _, _ => True

section Programs

/-- The programs of the service, under what a transaction relies on. -/
abbrev Keeps (c : Call) (q : M Unit) (d : Tables) (ws : List Write) : Prop :=
  Server.InOrder engine Holds Ready c q d ws

theorem Keeps.raise {e : Exn} : Keeps c (.raise e) d ws :=
  Server.InOrder.raise fun _ _ => trivial

theorem Keeps.lift {α : Type} {x : Except Exn α} {f : α → M Unit} (h : ∀ a, x = .ok a → Keeps c (f a) d ws) :
    Keeps c (Prog.lift x >>= f) d ws := Server.InOrder.lift (fun _ _ => trivial) h

theorem Keeps.ret (h : Committed d c ws) : Keeps c (.ret ()) d ws :=
  Server.InOrder.ret fun _ hd => h.holds hd

variable {modelId versionId : Uuid}

theorem Keeps.selectModel {k : Option Model → M Unit}
    (h : ∀ d' model, ModelWas d' modelId model → Keeps c (k (some model)) d' [])
    (hnone : ∀ d', Keeps c (k none) d' []) : Keeps c (.op (.selectModel modelId) k) d [] := by
  refine .read (fun a d r new hr => ((answer_inj hr).2).symm) fun d' hd a r hr => ?_
  obtain rfl := (answer_inj hr).1
  show Keeps c (k (d'.models.get? modelId)) d' []
  cases hfound : d'.models.get? modelId with
  | none => exact hnone d'
  | some model => exact h d' model ⟨model, hfound, .refl model⟩

theorem Keeps.selectVersion {k : Option ModelVersion → M Unit}
    (h : ∀ d' r, Holds [] d d' → d'.versions.get? versionId = some r → r.modelId = modelId → Keeps c (k (some r)) d' [])
    (hnone : ∀ d', Keeps c (k none) d' []) : Keeps c (.op (.selectVersion modelId versionId) k) d [] := by
  refine .read (fun a d r new hr => ?_) fun d' hd a r hr => ?_
  · exact ((answer_inj hr).2).symm
  · obtain rfl := (answer_inj hr).1
    show Keeps c (k ((d'.versions.get? versionId).filter (fun r => r.modelId = modelId))) d' []
    cases hfound : d'.versions.get? versionId with
    | none => exact hnone d'
    | some row =>
      by_cases hmodel : row.modelId = modelId
      · rw [Option.filter_some, if_pos (decide_eq_true hmodel)]
        exact h d' row hd hfound hmodel
      · rw [Option.filter_some, if_neg (by simpa using hmodel)]
        exact hnone d'

theorem Keeps.updateModel {old new : Model} {k : Unit → M Unit}
    (h : ∀ d', Holds ws d d' → Keeps c (k ()) d' (ws ++ [.updateModel modelId old new])) :
    Keeps c (.op (.updateModel modelId old new) fun updated => Prog.lift updated >>= k) d ws := by
  refine Server.InOrder.op fun d' hd a r written hr => ?_
  have hr : (if ((engine.view ws d').models.get? modelId).isSome then
      some ((.ok () : Except Exn Unit), [Write.updateModel modelId old new]) else some (.error .python, [])) =
        some (r, written) := hr
  split at hr
  · cases hr
    exact Keeps.lift fun _ _ => h d' hd
  · cases hr
    exact Keeps.lift fun _ h => by cases h

theorem Keeps.updateVersion {old new : ModelVersion}
    (h : ∀ d', Holds ws d d' → Committed d' c (ws ++ [.updateVersion versionId old new])) :
    Keeps c (.op (.updateVersion versionId old new) fun updated => Prog.lift updated) d ws := by
  refine Server.InOrder.op fun d' hd a r written hr => ?_
  have hr : (if ((engine.view ws d').versions.get? versionId).isSome then
      some ((.ok () : Except Exn Unit), [Write.updateVersion versionId old new]) else some (.error .python, [])) =
        some (r, written) := hr
  split at hr
  · cases hr
    exact Keeps.ret (h d' hd)
  · cases hr
    exact Keeps.raise

theorem keeps_advance {source target : Status} {message : Status → String}
    (h : ∀ d' old, old.status = source → Committed d' c [.updateVersion versionId old { old with status := target }]) :
    Keeps c (advance modelId versionId source target message) d [] := by
  refine Keeps.selectVersion (fun d₁ r _ _ _ => ?_) fun d₁ => Keeps.raise
  show Keeps c (if r.status ≠ source then _ else _) d₁ []
  split
  · exact Keeps.raise
  · next hstatus => exact Keeps.updateVersion fun d₂ _ => h d₂ r (not_not.mp hstatus)

theorem keeps_createVersion : Keeps (.createVersion modelId) (createVersion_ modelId) d [] := by
  refine Keeps.selectModel (fun d₁ model _ => ?_) fun d₁ => Keeps.raise
  refine Server.InOrder.read (fun a d r new hr => ((answer_inj hr).2).symm) fun d₂ _ _ number _ => ?_
  refine Server.InOrder.read (fun a d r new hr => ((answer_inj hr).2).symm) fun d₃ _ _ id _ => ?_
  refine Server.InOrder.op fun d₄ _ a r written hr => ?_
  have hr : (if admits d₄ id ⟨modelId, number.getD 0 + 1, .draft, none⟩ then
      some ((.ok () : Except Exn Unit), [Write.insertVersion id ⟨modelId, number.getD 0 + 1, .draft, none⟩])
    else some (.error .python, [])) = some (r, written) := hr
  split at hr
  · next hadmits =>
      cases hr
      unfold admits at hadmits
      rw [Bool.and_eq_true, Bool.and_eq_true] at hadmits
      exact Keeps.ret (.createVersion (Option.isSome_iff_exists.mp hadmits.1.1)
        (Option.isNone_iff_eq_none.mp hadmits.1.2) rfl)
  · cases hr
    exact Keeps.raise

theorem keeps_publish : Keeps (.publish modelId versionId) (publish modelId versionId) d [] := by
  refine Server.InOrder.read (fun a d r new hr => ((answer_inj hr).2).symm) fun d₁ _ _ now _ => ?_
  refine Keeps.selectModel (fun d₂ model hwas => ?_) fun d₂ => Keeps.raise
  refine Keeps.selectVersion (fun d₃ r hd₃ hr hmodel => ?_) fun d₃ => Keeps.raise
  show Keeps _ (if r.status ≠ .validated then _ else _) d₃ []
  split
  · exact Keeps.raise
  · next hstatus =>
      refine Keeps.updateModel fun d₄ hd₄ => Keeps.updateVersion fun d₅ hd₅ => ?_
      have hfound : VersionOf d₃ modelId versionId (fun _ => True) := ⟨r, hr, hmodel, trivial⟩
      exact .publish (((hwas.holds hd₃).holds hd₄).holds hd₅)
        ((hfound.holds (fun _ _ _ h => h) hd₄).holds (fun _ _ _ h => h) hd₅) (not_not.mp hstatus)

theorem Keeps.stamp {version : ModelVersion} {k : Option Time → M Unit}
    (h : ∀ d', Holds ws d d' → ∀ t, Keeps c (k t) d' ws) : Keeps c (stamp version >>= k) d ws := by
  unfold Models.stamp
  split
  · refine Server.InOrder.read (fun a d r new hr => ((answer_inj hr).2).symm) fun d' hd _ now _ => ?_
    exact h d' hd (some now)
  · exact h d (Holds.refl ws d) _

theorem keeps_rollback : Keeps (.rollback modelId versionId) (rollback modelId versionId) d [] := by
  refine Keeps.selectModel (fun d₁ model hwas => ?_) fun d₁ => Keeps.raise
  refine Keeps.selectVersion (fun d₂ r hd₂ hr hmodel => ?_) fun d₂ => Keeps.raise
  show Keeps _ (if r.status ≠ .published ∧ r.status ≠ .validated then _ else _) d₂ []
  split
  · exact Keeps.raise
  · next hstatus =>
      refine Keeps.stamp fun d₃ hd₃ publishedAt => Keeps.updateModel fun d₄ hd₄ => ?_
      have hwas₄ : ModelWas d₄ modelId model := ((hwas.holds hd₂).holds hd₃).holds hd₄
      show Keeps _ (if r.status = .published then _ else _) d₄ _
      split
      · next hpublished =>
          have hfound : VersionOf d₂ modelId versionId (fun r => r.status = .published) :=
            ⟨r, hr, hmodel, hpublished⟩
          exact Keeps.ret (.rollback hwas₄ ((hfound.holds (fun _ _ hkeep h => hkeep h) hd₃).holds
            (fun _ _ hkeep h => hkeep h) hd₄))
      · next hpublished =>
          have hvalidated : r.status = .validated := by
            by_contra hne
            exact hstatus ⟨hpublished, hne⟩
          have hfound : VersionOf d₂ modelId versionId (fun _ => True) := ⟨r, hr, hmodel, trivial⟩
          refine Keeps.updateVersion fun d₅ hd₅ => .republish (hwas₄.holds hd₅) ?_ hvalidated
          exact ((hfound.holds (fun _ _ _ h => h) hd₃).holds (fun _ _ _ h => h) hd₄).holds (fun _ _ _ h => h) hd₅

theorem keeps_deprecate : Keeps (.deprecateModel modelId) (deprecate_ modelId) d [] := by
  refine Keeps.selectModel (fun d₁ model hwas => ?_) fun d₁ => Keeps.raise
  -- the UPDATE is the last statement
  refine Server.InOrder.op fun d₂ hd₂ a r written hr => ?_
  have hr : (if (d₂.models.get? modelId).isSome then
      some ((.ok () : Except Exn Unit), [Write.updateModel modelId model
        { model with status := .deprecated, lockVersion := model.lockVersion + 1 }])
    else some (.error .python, [])) = some (r, written) := hr
  split at hr
  · cases hr
    exact Keeps.ret (.deprecateModel (hwas.holds hd₂))
  · cases hr
    exact Keeps.raise

theorem keeps_prog (c : Call) (d : Tables) : Keeps c (prog c) d [] := by
  cases c with
  | createVersion modelId => exact keeps_createVersion
  | submitForValidation modelId versionId =>
    show Keeps _ (submitForValidation modelId versionId) d []
    unfold submitForValidation
    exact keeps_advance fun _ _ h => .submitForValidation h
  | validate modelId versionId =>
    show Keeps _ (validate modelId versionId) d []
    unfold validate
    exact keeps_advance fun _ _ h => .validate h
  | publish modelId versionId => exact keeps_publish
  | rollback modelId versionId => exact keeps_rollback
  | deprecateModel modelId => exact keeps_deprecate

end Programs

end Irip.Models
