import Irip.Publication.Versions

/-!
# `Publication.History` — what publication never forgets

Versions and ACL revisions are only ever appended. A version keeps all but its status, and the revisions of a result
lead from its first ACL to the one it has.
-/

namespace Irip.Publication

open Research (UserId)
open Runs

/-! ## Revisions -/

/-- Whom a result is for. -/
def ResearchResult.acl (result : ResearchResult) : AclType × List UserId :=
  (result.currentAclType, result.currentExplicitUserIds)

/-- Whom a revision has made it for. -/
def ResultAclRevision.acl (x : ResultAclRevision) : AclType × List UserId := (x.aclType, x.explicitUserIds)

/-- The revision has the next number, and records the ACL before it. -/
structure ResultAclRevision.Follows (x : ResultAclRevision) (last : Option ResultAclRevision) : Prop where
  number : x.revisionNumber = (last.map ResultAclRevision.revisionNumber).getD 0 + 1
  previousType : x.previousAclType = last.map ResultAclRevision.aclType
  previousUsers : x.previousExplicitUserIds = last.map ResultAclRevision.explicitUserIds

/-- Every revision follows the one before it of the same result, and the last one has set the ACL of the result. -/
structure Sys.Audited (s : Sys) : Prop where
  chained : ∀ pre x post, s.revisions = pre ++ x :: post →
    x.Follows (pre.reverse.find? (fun y => y.resultId == x.resultId))
  current : ∀ (r : ResultId) (x : ResultAclRevision), s.getLatestRevision r = some x →
    ∃ result, s.results[r]? = some result ∧ result.acl = x.acl

/-- The result keeps its ACL. -/
def KeepsAcl (s s' : Sys) (r : ResultId) : Prop :=
  ∀ result, s.results[r]? = some result → ∃ result', s'.results[r]? = some result' ∧ result'.acl = result.acl

/-- The step appends the revision `new`, which sets the ACL of its result. -/
structure Revises (s s' : Sys) (new : ResultAclRevision) : Prop where
  appended : s'.revisions = s.revisions ++ [new]
  follows : new.Follows (s.getLatestRevision new.resultId)
  sets : ∃ result, s'.results[new.resultId]? = some result ∧ result.acl = new.acl
  others : ∀ r, r ≠ new.resultId → KeepsAcl s s' r

section Steps

variable {s s' : Sys} {a : Action}

theorem keepsAcl_append {result : ResearchResult} (r : ResultId) (hresults : s'.results = s.results ++ [result]) :
    KeepsAcl s s' r := by
  intro row hrow
  refine ⟨row, ?_, rfl⟩
  rw [hresults, List.getElem?_append_left (List.getElem?_eq_some_iff.mp hrow).1, hrow]

theorem keepsAcl_update {r r' : ResultId} {u : Table.Update ResearchResult}
    (hresults : s'.results = Table.update s.results [r'] u) (hset : r = r' → ∀ row, (u.set row).acl = row.acl) :
    KeepsAcl s s' r := by
  intro row hrow
  rw [hresults, Table.getElem?_update, hrow, Option.map_some]
  refine ⟨_, rfl, ?_⟩
  split
  · next hmem =>
    rcases u.apply_cases row with ⟨-, happly⟩ | ⟨-, happly⟩
    · rw [happly, hset (List.mem_singleton.mp hmem)]
    · rw [happly]
  · rfl

theorem keepsAcl_of_same (hresults : s'.results = s.results) (r : ResultId) : KeepsAcl s s' r := by
  intro row hrow
  exact ⟨row, by rw [hresults, hrow], rfl⟩

/-- **What a step does to the ACLs.** It leaves them and the revisions alone, or appends the next revision of the
one result whose ACL it sets. -/
theorem revision_step (hs : s.Audited) (h : step s a = some s') :
    (s'.revisions = s.revisions ∧ ∀ r, KeepsAcl s s' r) ∨ ∃ new, Revises s s' new := by
  cases a with
  | publishConclusion actor ws name =>
    obtain ⟨-, rfl⟩ := publishConclusion_ok h
    exact .inl ⟨rfl, fun r => keepsAcl_append r rfl⟩
  | publishResult actor ws req =>
    -- a new result has no revision yet
    have hnone : s.getLatestRevision s.results.length = none := by
      cases hlatest : s.getLatestRevision s.results.length with
      | none => rfl
      | some x =>
        obtain ⟨result, hrow, -⟩ := hs.current _ x hlatest
        simp at hrow
    obtain ⟨⟨refs, envelope⟩, -, h⟩ := Evaluation.bind_ok_iff.mp (Evaluation.ok_of_toOption h)
    obtain ⟨_, -, h⟩ := Evaluation.bind_ok_iff.mp h
    obtain rfl := Except.ok.inj h
    refine .inr ⟨_, rfl, ?_, ⟨_, List.getElem?_concat_length, rfl⟩, fun r _ => keepsAcl_append r rfl⟩
    show ResultAclRevision.Follows _ (s.getLatestRevision s.results.length)
    rw [hnone]
    exact ⟨rfl, rfl, rfl⟩
  | publishNewVersion actor r ws req =>
    obtain ⟨result, refs, envelope, -, -, -, -, rfl⟩ := publishNewVersion_ok (Evaluation.ok_of_toOption h)
    exact .inl ⟨rfl, fun r' => keepsAcl_update rfl (fun _ _ => rfl)⟩
  | updateAcl actor r change =>
    obtain ⟨result, hresult, h⟩ := Evaluation.bind_ok_iff.mp (Evaluation.ok_of_toOption h)
    obtain ⟨_, -, h⟩ := Evaluation.bind_ok_iff.mp h
    obtain rfl := Except.ok.inj h
    have hrow := (requireOwnResult_ok hresult).1
    refine .inr ⟨_, rfl, ⟨rfl, rfl, rfl⟩, ⟨setAcl change.aclType change.explicitUserIds |>.set result, ?_, rfl⟩, ?_⟩
    · show (Table.update s.results [r] _)[r]? = _
      rw [Table.getElem?_update, hrow, Option.map_some, if_pos (List.mem_singleton.mpr rfl)]
      rfl
    · exact fun r' hne => keepsAcl_update rfl (fun hsame => absurd hsame hne)
  | withdrawResult actor r versionNumber =>
    rcases withdrawResult_ok (Evaluation.ok_of_toOption h) with ⟨n, i, v, -, -, -, -, rfl⟩ | ⟨-, rfl⟩
    · exact .inl ⟨rfl, keepsAcl_of_same rfl⟩
    · exact .inl ⟨rfl, fun r' => keepsAcl_update rfl (fun _ _ => rfl)⟩
  | _ =>
    obtain ⟨hresults, -, hrevisions, -⟩ := rows_step h rfl
    exact .inl ⟨hrevisions, keepsAcl_of_same hresults⟩

/-- **Every step keeps the history of the ACLs.** -/
theorem audited_step (hs : s.Audited) (h : step s a = some s') : s'.Audited := by
  rcases revision_step hs h with ⟨hrevisions, hkeeps⟩ | ⟨new, happended, hfollows, hsets, hothers⟩
  · refine ⟨fun pre x post hsplit => hs.chained pre x post (hrevisions ▸ hsplit), fun r x hx => ?_⟩
    have hx' : s.getLatestRevision r = some x := by
      rw [← hx, Sys.getLatestRevision, Sys.getLatestRevision, hrevisions]
    obtain ⟨result, hrow, hacl⟩ := hs.current r x hx'
    obtain ⟨result', hrow', hsame⟩ := hkeeps r result hrow
    exact ⟨result', hrow', hsame.trans hacl⟩
  · refine ⟨fun pre x post hsplit => ?_, fun r x hx => ?_⟩
    · rw [happended] at hsplit
      -- the revision split off is the new one, or one that was there
      rcases List.eq_nil_or_concat post with rfl | ⟨post, last, rfl⟩
      · obtain ⟨rfl, hnew⟩ := List.append_inj' hsplit rfl
        obtain rfl := List.singleton_inj.mp hnew
        exact hfollows
      · rw [List.concat_eq_append, ← List.cons_append, ← List.append_assoc] at hsplit
        exact hs.chained pre x post (List.append_inj' hsplit rfl).1
    · rw [Sys.getLatestRevision, happended, List.reverse_append, List.reverse_singleton, List.singleton_append,
        List.find?_cons] at hx
      by_cases hr : r = new.resultId
      · subst hr
        rw [beq_self_eq_true] at hx
        obtain rfl := Option.some.inj hx
        exact hsets
      · rw [beq_false_of_ne (Ne.symm hr)] at hx
        obtain ⟨result, hrow, hacl⟩ := hs.current r x hx
        obtain ⟨result', hrow', hsame⟩ := hothers r hr result hrow
        exact ⟨result', hrow', hsame.trans hacl⟩

end Steps

/-! ## Runs -/

theorem audited_init : init.Audited := by
  refine ⟨fun pre x post hsplit => ?_, fun r x hx => ?_⟩
  · exact absurd hsplit (by simp [init])
  · cases hx

/-- Nothing published is forgotten by the step, and the numbers and the ACL revisions are in order after it. -/
structure Remembers (t : Transition Sys Action) : Prop where
  versions : ∀ (i : VersionId) (v : ResearchResultVersion), t.pre.versions[i]? = some v →
    ∃ v', t.post.versions[i]? = some v' ∧ (v.status ≠ .active → v'.status ≠ .active) ∧
      v' = { v with status := v'.status }
  revisions : t.pre.revisions <+: t.post.revisions
  numbered : Numbered t.post.results t.post.versions
  audited : t.post.Audited

/-- **Publication forgets nothing.** In every run, whoever calls what: a published version keeps its content, its
publisher and its envelope, and once it is not active it stays so; versions are numbered without gaps; ACL
revisions are only appended, each records the ACL it replaces, and the last one is the ACL in force. -/
theorem publication_remembers (acts : List Action) : ∀ t ∈ play step init acts, Remembers t := by
  intro t ht
  have hrun : Run step init _ _ := play_run init acts
  have h := hrun.step_of_mem ht
  have hnumbered := hrun.invariant_of_step (I := fun s => Sound s ∧ Numbered s.results s.versions)
    (fun h hs => ⟨sound_step hs.1 h, numbered_step hs.1 h hs.2⟩) ⟨sound_init, (ordered_init 0).numbered⟩ t ht
  obtain ⟨hpre, hpost⟩ := hrun.invariant_of_step (fun h hs => audited_step hs h) audited_init t ht
  refine ⟨fun i v hv => version_kept h hv, ?_, hnumbered.2.2, hpost⟩
  rcases revision_step hpre h with ⟨hsame, -⟩ | ⟨new, happended, -⟩
  · rw [hsame]
  · rw [happended]
    exact List.prefix_append _ _

/-- The owner publishes a view, and opens it to everybody. -/
def openedView : List Action := publishedView .ownerOnly ++ [.updateAcl 0 0 { aclType := .all }]

theorem publication_remembers_opened : ∃ t ∈ play step init openedView,
    t.post.revisions.map (fun x => x.revisionNumber) = [1, 2] ∧ Remembers t := by
  have hopened : ∃ t ∈ play step init openedView, t.post.revisions.map (fun x => x.revisionNumber) = [1, 2] := by
    rw [openedView, publishedView, List.append_assoc, play_finishedRun]
    decide +kernel
  obtain ⟨t, ht, hnumbers⟩ := hopened
  exact ⟨t, ht, hnumbers, publication_remembers openedView t ht⟩

end Irip.Publication
