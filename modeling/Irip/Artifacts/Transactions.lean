import Irip.Artifacts.Service

/-!
# `Artifacts.Transactions` — what a call of the artifact service relies on and commits

`Holds` is what a transaction can rely on while others commit, `Committed` what a call that has come to its end has
written.
-/

namespace Irip.Artifacts

open Server

/-! ## Rely -/

/-- What a transaction that has written `ws` can rely on: nobody else touches a row it has written, deletes a blob it
refers to, or adds an artifact of a blob it deletes. -/
structure Holds (ws : List Write) (d d' : Database) : Prop where
  blob : ∀ w ∈ ws, ∀ sha256, w.blob = some sha256 → d'.blobs.get? sha256 = d.blobs.get? sha256
  artifact : ∀ w ∈ ws, ∀ id, w.artifact = some id → d'.artifacts.get? id = d.artifacts.get? id
  refers : ∀ w ∈ ws, ∀ sha256, w.refers = some sha256 → (d.blobs.get? sha256).isSome = true →
    (d'.blobs.get? sha256).isSome = true
  drops : ∀ w ∈ ws, ∀ sha256, w.drops = some sha256 → ∀ k r, d'.artifacts.get? k = some r → r.sha256 = sha256 →
    d.artifacts.get? k = some r

theorem Holds.refl (ws : List Write) (d : Database) : Holds ws d d :=
  ⟨fun _ _ _ _ => rfl, fun _ _ _ _ => rfl, fun _ _ _ _ h => h, fun _ _ _ _ _ _ h _ => h⟩

theorem Holds.trans (ws : List Write) {d d' d'' : Database} (h : Holds ws d d') (h' : Holds ws d' d'') :
    Holds ws d d'' where
  blob w hw sha256 hs := (h'.blob w hw sha256 hs).trans (h.blob w hw sha256 hs)
  artifact w hw id hid := (h'.artifact w hw id hid).trans (h.artifact w hw id hid)
  refers w hw sha256 hs hd := h'.refers w hw sha256 hs (h.refers w hw sha256 hs hd)
  drops w hw sha256 hs k r hr hsha := h.drops w hw sha256 hs k r (h'.drops w hw sha256 hs k r hr hsha) hsha

theorem some_beq_comm {α : Type} [DecidableEq α] (x y : Option α) :
    (x.isSome && x == y) = (y.isSome && y == x) := by
  rw [Bool.eq_iff_iff, Bool.and_eq_true, Bool.and_eq_true, beq_iff_eq, beq_iff_eq]
  constructor
  · rintro ⟨hsome, heq⟩
    exact ⟨heq ▸ hsome, heq.symm⟩
  · rintro ⟨hsome, heq⟩
    exact ⟨heq ▸ hsome, heq.symm⟩

theorem conflict_comm (w w' : Write) : conflict w w' = conflict w' w := by
  unfold conflict
  rw [some_beq_comm w.blob, some_beq_comm w.artifact, Bool.or_right_comm]

theorem ne_of_some_beq {α : Type} [DecidableEq α] {x y : Option α} (h : (x.isSome && x == y) = false) (a : α)
    (hx : x = some a) : y ≠ some a := by
  rintro rfl
  simp [hx] at h

/-- Two writes that do not exclude each other. -/
structure Free (w w' : Write) : Prop where
  blob : ∀ sha256, w'.blob = some sha256 → w.blob ≠ some sha256
  artifact : ∀ id, w'.artifact = some id → w.artifact ≠ some id
  refers : ∀ sha256, w'.refers = some sha256 → w.drops ≠ some sha256
  drops : ∀ sha256, w'.drops = some sha256 → w.refers ≠ some sha256

theorem free_of_not_conflict {w w' : Write} (h : conflict w w' = false) : Free w w' := by
  unfold conflict severs at h
  rw [Bool.or_eq_false_iff, Bool.or_eq_false_iff, Bool.or_eq_false_iff] at h
  obtain ⟨⟨⟨hblob, hartifact⟩, hsever⟩, hsever'⟩ := h
  constructor
  · intro sha256 hw' hw
    exact ne_of_some_beq hblob sha256 hw hw'
  · intro id hw' hw
    exact ne_of_some_beq hartifact id hw hw'
  · intro sha256 hw' hw
    exact ne_of_some_beq hsever' sha256 hw' hw
  · intro sha256 hw' hw
    exact ne_of_some_beq hsever sha256 hw hw'

theorem blobs_apply (w : Write) (d : Database) {sha256 : String} (h : w.blob ≠ some sha256) :
    (w.apply d).blobs.get? sha256 = d.blobs.get? sha256 := by
  cases w with
  | insertBlob sha256' row | deleteBlob sha256' =>
    have hne : ¬ sha256 = sha256' := fun heq => h (by rw [heq]; rfl)
    simp [Write.apply, hne]
  | _ => rfl

theorem artifacts_apply (w : Write) (d : Database) {id : Uuid} (h : w.artifact ≠ some id) :
    (w.apply d).artifacts.get? id = d.artifacts.get? id := by
  cases w with
  | insertArtifact id' row | deleteArtifact id' row =>
    have hne : ¬ id = id' := fun heq => h (by rw [heq]; rfl)
    simp [Write.apply, hne]
  | _ => rfl

theorem holds_apply (w : Write) (ws : List Write) (d : Database) (h : ∀ w' ∈ ws, conflict w w' = false) :
    Holds ws d (w.apply d) := by
  have hfree : ∀ w' ∈ ws, Free w w' := fun w' hw' => free_of_not_conflict (h w' hw')
  constructor
  · intro w' hw' sha256 hs
    exact blobs_apply w d ((hfree w' hw').blob sha256 hs)
  · intro w' hw' id hid
    exact artifacts_apply w d ((hfree w' hw').artifact id hid)
  · intro w' hw' sha256 hs hsome
    by_cases hblob : w.blob = some sha256
    · cases w with
      | insertBlob sha256' row =>
        obtain rfl := Option.some.inj hblob
        simp [Write.apply]
      | deleteBlob sha256' => exact absurd hblob ((hfree w' hw').refers sha256 hs)
      | insertArtifact id row => cases hblob
      | deleteArtifact id row => cases hblob
    · rw [blobs_apply w d hblob]
      exact hsome
  · intro w' hw' sha256 hs k r hr hsha
    by_cases hartifact : w.artifact = some k
    · cases w with
      | insertArtifact id row =>
        obtain rfl := Option.some.inj hartifact
        simp only [Write.apply, Dict.get?_set, if_true, Option.some.injEq] at hr
        subst hr
        exact absurd (by rw [← hsha]; rfl) ((hfree w' hw').drops sha256 hs)
      | deleteArtifact id row =>
        obtain rfl := Option.some.inj hartifact
        simp [Write.apply] at hr
      | insertBlob sha256' row | deleteBlob sha256' => cases hartifact
    · rwa [artifacts_apply w d hartifact] at hr

/-! ## Postcondition -/

/-- The writes of a call that has come to its end: an artifact with or without its blob, the end of an artifact or of a
blob that nothing refers to or of both, or nothing. -/
inductive Committed (d : Database) : List Write → Prop where
  | nothing : Committed d []
  | upload {id : Uuid} {row : Artifact} {blob : ArtifactBlob} (newBlob : d.blobs.get? row.sha256 = none)
      (new : d.artifacts.get? id = none) (key : blob.objectKey = buildObjectKey row.sha256) :
      Committed d [.insertBlob row.sha256 blob, .insertArtifact id row]
  | share {id : Uuid} {row : Artifact} (found : (d.blobs.get? row.sha256).isSome = true)
      (new : d.artifacts.get? id = none) : Committed d [.insertArtifact id row]
  | unlink {id : Uuid} {row : Artifact} (found : d.artifacts.get? id = some row) :
      Committed d [.deleteArtifact id row]
  | clear {id : Uuid} {row : Artifact} {sha256 : String} (found : d.artifacts.get? id = some row)
      (last : ∀ k r, d.artifacts.get? k = some r → r.sha256 = sha256 → k = id) :
      Committed d [.deleteArtifact id row, .deleteBlob sha256]
  | sweep {sha256 : String} (last : ∀ k r, d.artifacts.get? k = some r → r.sha256 ≠ sha256) :
      Committed d [.deleteBlob sha256]

variable {d d' : Database} {ws : List Write}

theorem Committed.holds (h : Committed d ws) (hd : Holds ws d d') : Committed d' ws := by
  cases h with
  | nothing => exact .nothing
  | upload newBlob new key =>
    refine .upload ?_ ?_ key
    · exact (hd.blob _ List.mem_cons_self _ rfl).trans newBlob
    · exact (hd.artifact _ (List.mem_cons_of_mem _ List.mem_cons_self) _ rfl).trans new
  | share found new =>
    refine .share ?_ ?_
    · exact hd.refers _ List.mem_cons_self _ rfl found
    · exact (hd.artifact _ List.mem_cons_self _ rfl).trans new
  | unlink found => exact .unlink ((hd.artifact _ List.mem_cons_self _ rfl).trans found)
  | @clear id row sha256 found last =>
    refine .clear ((hd.artifact _ List.mem_cons_self _ rfl).trans found) fun k r hr hsha => ?_
    have hdrop := hd.drops _ (List.mem_cons_of_mem _ List.mem_cons_self) sha256 rfl
    exact last k r (hdrop k r hr hsha) hsha
  | @sweep sha256 last =>
    refine .sweep fun k r hr hsha => ?_
    exact last k r (hd.drops _ List.mem_cons_self sha256 rfl k r hr hsha) hsha

/-! ## Programs -/

/-- The postcondition of a call. -/
def Ready (_ : Call) : Except Exn Reply → Database × List Write → Prop
  | .ok _, x => Committed x.1 x.2
  | .error _, _ => True

section Programs

variable {c : Call}

/-- The programs of the service, under what a transaction relies on. -/
abbrev Keeps (c : Call) (q : M Reply) (d : Database) (ws : List Write) : Prop :=
  InOrder engine Holds Ready c q d ws

theorem ready_error (e : Exn) (y : Database × List Write) : Ready c (.error e) y := trivial

theorem Keeps.ret {v : Reply} (h : Committed d ws) : Keeps c (.ret v) d ws :=
  InOrder.ret fun _ hd => h.holds hd

theorem Keeps.call {o : Op} {k : Res o → M Reply} (hread : ∀ a d r new, handle o a d = some (r, new) → new = [])
    (h : ∀ d' r, Holds ws d d' → Keeps c (k r) d' ws) : Keeps c (.op o k) d ws :=
  InOrder.read hread fun d' hd _ r _ => h d' r hd

theorem keeps_insertArtifact {id : Uuid} {row : Artifact} {v : Reply}
    (h : ∀ d', Holds ws d d' → (engine.view ws d').artifacts.get? id = none →
      ((engine.view ws d').blobs.get? row.sha256).isSome = true → Committed d' (ws ++ [.insertArtifact id row])) :
    Keeps c (ask (.insertArtifact id row) >>= fun inserted => Prog.lift inserted >>= fun _ => return v) d ws := by
  refine InOrder.op fun d' hd a inserted new hhandle => ?_
  refine InOrder.lift ready_error fun _ hok => ?_
  subst hok
  simp only [engine, handle] at hhandle
  split at hhandle
  · next hfree =>
      obtain ⟨-, rfl⟩ := answer_inj hhandle
      obtain ⟨hnone, hsome⟩ := Bool.and_eq_true_iff.mp hfree
      exact Keeps.ret (h d' hd (Option.isNone_iff_eq_none.mp hnone) hsome)
  · obtain ⟨habsurd, -⟩ := answer_inj hhandle
    cases habsurd

theorem keeps_putBytes {caller : Caller} {data : Bytes} {mediaType filename : String} :
    Keeps c (putBytes caller data mediaType filename) d [] := by
  unfold putBytes
  split
  · exact InOrder.raise ready_error
  · refine InOrder.read (fun _ _ _ _ => written_eq) fun d₁ _ a existingBlob _ => ?_
    -- where the blob was found, nothing is written before the artifact
    have hshare : ∀ d₂, Keeps c (do
        let id ← ask .newId
        let inserted ← ask (.insertArtifact id {
          departmentId := caller.departmentId, ownerUserId := caller.uploadedBy, sha256 := sha256Bytes data
          filename := filename, mediaType := mediaType, sizeBytes := data.length, uploadedBy := caller.uploadedBy })
        let _ ← Prog.lift inserted
        return .ref {
          artifactId := id, objectKey := buildObjectKey (sha256Bytes data), sha256 := sha256Bytes data
          mediaType := mediaType, sizeBytes := data.length, filename := filename }) d₂ [] := by
      intro d₂
      refine Keeps.call (fun _ _ _ _ => written_eq) fun d₃ id _ => ?_
      exact keeps_insertArtifact fun d₄ _ hnew hfound => .share hfound hnew
    cases existingBlob with
    | some blob =>
      refine Keeps.call (fun _ _ _ _ => written_eq) fun d₂ head _ => ?_
      cases head with
      | ok _ => exact hshare d₂
      | error _ =>
        refine Keeps.call (fun _ _ _ _ => written_eq) fun d₃ put _ => ?_
        exact InOrder.lift ready_error fun _ _ => hshare d₃
    | none =>
      refine Keeps.call (fun _ _ _ _ => written_eq) fun d₂ put _ => ?_
      cases put with
      | error e => exact InOrder.raise ready_error
      | ok _ =>
        refine InOrder.op fun d₃ _ a inserted new hhandle => ?_
        simp only [engine, handle] at hhandle
        split at hhandle
        · next hfree =>
            obtain ⟨rfl, rfl⟩ := answer_inj hhandle
            have hnone : d₃.blobs.get? (sha256Bytes data) = none := Option.isNone_iff_eq_none.mp hfree
            refine Keeps.call (fun _ _ _ _ => written_eq) fun d₄ id hd₄ => ?_
            have hnone₄ := (hd₄.blob _ List.mem_cons_self _ rfl).trans hnone
            refine keeps_insertArtifact fun d₅ hd₅ hnew _ => ?_
            have hnone₅ := (hd₅.blob _ List.mem_cons_self _ rfl).trans hnone₄
            exact @Committed.upload _ _ { sha256 := sha256Bytes data, .. } _ hnone₅ hnew rfl
        · obtain ⟨rfl, rfl⟩ := answer_inj hhandle
          exact InOrder.raise ready_error

theorem references_eq_nil {sha256 : String} (h : d.references sha256 = []) (k : Uuid) (r : Artifact)
    (hr : d.artifacts.get? k = some r) : r.sha256 ≠ sha256 := by
  intro hsha
  have hmem : k ∈ d.references sha256 := Dict.mem_keysWhere.mpr ⟨r, hr, by simpa using hsha⟩
  rw [h] at hmem
  cases hmem

theorem keeps_deleteBlob {sha256 : String} {k : Res (.deleteBlob sha256) → M Reply}
    (hnone : ∀ d', Holds ws d d' → ∀ r, Keeps c (k r) d' ws)
    (hgone : ∀ d', Holds ws d d' → (∀ k r, (engine.view ws d').artifacts.get? k = some r → r.sha256 ≠ sha256) →
      Keeps c (k (.ok ())) d' (ws ++ [.deleteBlob sha256])) : Keeps c (.op (.deleteBlob sha256) k) d ws := by
  refine InOrder.op fun d' hd a deleted new hhandle => ?_
  simp only [engine, handle] at hhandle
  split at hhandle
  · obtain ⟨rfl, rfl⟩ := answer_inj hhandle
    rw [List.append_nil]
    exact hnone d' hd _
  · split at hhandle
    · next hrefs =>
        obtain ⟨rfl, rfl⟩ := answer_inj hhandle
        exact hgone d' hd (references_eq_nil (List.isEmpty_iff.mp hrefs))
    · obtain ⟨rfl, rfl⟩ := answer_inj hhandle
      rw [List.append_nil]
      exact hnone d' hd _

theorem keeps_deleteObject {key : String} (h : Committed d ws) :
    Keeps c (ask (.deleteObject key) >>= fun deleted => Prog.lift deleted >>= fun _ => return .done) d ws := by
  refine Keeps.call (fun _ _ _ _ => written_eq) fun d' deleted hd => ?_
  exact InOrder.lift ready_error fun _ _ => Keeps.ret (h.holds hd)

theorem keeps_deleteArtifact {artifactId : Uuid} : Keeps c (deleteArtifact artifactId) d [] := by
  refine Keeps.call (fun _ _ _ _ => written_eq) fun d₁ row _ => ?_
  cases row with
  | none => exact Keeps.ret .nothing
  | some found =>
    obtain ⟨artifact, blob⟩ := found
    -- what follows the DELETE of the artifact, which may have found it gone
    have hrest : ∀ {d₂ : Database} {ws : List Write} (_ : Committed d₂ ws)
        (_ : ∀ d', Committed d' ws → (∀ k r, (engine.view ws d').artifacts.get? k = some r → r.sha256 ≠ artifact.sha256) →
          Committed d' (ws ++ [.deleteBlob artifact.sha256])),
        Keeps c (do
          let refCount ← ask (.countReferences artifact.sha256)
          if refCount = 0 then do
            let deleted ← ask (.deleteBlob artifact.sha256)
            let _ ← Prog.lift deleted
            let deleted ← ask (.deleteObject blob.objectKey)
            let _ ← Prog.lift deleted
            return .done
          else return .done) d₂ ws := by
      intro d₂ ws hcommitted hclear
      refine Keeps.call (fun _ _ _ _ => written_eq) fun d₃ refCount hd₃ => ?_
      have hcommitted₃ := hcommitted.holds hd₃
      show Keeps c (if refCount = 0 then _ else _) d₃ ws
      split
      · refine keeps_deleteBlob (fun d₄ hd₄ r => ?_) (fun d₄ hd₄ hnone => ?_)
        · exact InOrder.lift ready_error fun _ _ => keeps_deleteObject (hcommitted₃.holds hd₄)
        · exact keeps_deleteObject (hclear d₄ (hcommitted₃.holds hd₄) hnone)
      · exact Keeps.ret hcommitted₃
    refine InOrder.op fun d₂ _ a _ new hhandle => ?_
    obtain ⟨-, rfl⟩ := answer_inj hhandle
    cases hrow : d₂.artifacts.get? artifactId with
    | none =>
      rw [Engine.view_nil, hrow]
      exact hrest .nothing fun d' _ hnone => .sweep hnone
    | some row =>
      rw [Engine.view_nil, hrow]
      refine hrest (.unlink hrow) fun d' hcommitted hnone => ?_
      have hfound : d'.artifacts.get? artifactId = some row := by
        cases hcommitted
        assumption
      refine .clear hfound fun k r hr hsha => ?_
      by_contra hne
      refine hnone k r ?_ hsha
      show (d'.artifacts.erase artifactId).get? k = some r
      rw [Dict.get?_erase, if_neg hne]
      exact hr

/-- **Every call is in order.** -/
theorem keeps_prog (c : Call) (d : Database) : Keeps c (prog c) d [] := by
  cases c with
  | putBytes caller data mediaType filename => exact keeps_putBytes
  | deleteArtifact artifactId => exact keeps_deleteArtifact

/-- Every upload puts the object of its content. -/
def PutsContent : Op → Prop
  | .putObject key data _ => key = buildObjectKey (sha256Bytes data)
  | _ => True

theorem issues_prog (c : Call) : (prog c).Issues PutsContent := by
  cases c with
  | putBytes caller data mediaType filename =>
    show (putBytes caller data mediaType filename).Issues PutsContent
    unfold putBytes
    split
    · trivial
    · refine .bind (.perform trivial) fun existingBlob => .bind ?_ fun _ => ?_
      · cases existingBlob with
        | none =>
          refine .bind (.perform rfl) fun put => .bind (.lift put) fun _ => ?_
          exact .bind (.perform trivial) fun inserted => .lift inserted
        | some blob =>
          refine .bind (.perform trivial) fun head => ?_
          cases head with
          | ok _ => trivial
          | error _ => exact .bind (.perform rfl) fun put => .lift put
      · refine .bind (.perform trivial) fun id => .bind (.perform trivial) fun inserted => ?_
        exact .bind (.lift inserted) fun _ => trivial
  | deleteArtifact artifactId =>
    refine .bind (.perform trivial) fun row => ?_
    cases row with
    | none => trivial
    | some found =>
      refine .bind (.perform trivial) fun _ => .bind (.perform trivial) fun refCount => ?_
      split
      · refine .bind (.perform trivial) fun deleted => .bind (.lift deleted) fun _ => ?_
        exact .bind (.perform trivial) fun deleted => .bind (.lift deleted) fun _ => trivial
      · trivial

end Programs

/-! ## Systems -/

/-- Every call in flight is in order. -/
structure Sound (p : Sys) : Prop where
  inOrder : Server.Sound engine Holds Ready p.server
  issues : ∀ s ∈ p.server.sessions, ∀ q ∈ s.rest, q.Issues PutsContent

theorem sound_step {p p' : Sys} {act : Step} (hp : Sound p) (h : step p act = some p') : Sound p' := by
  obtain ⟨hserver, -⟩ := step_some h
  constructor
  · exact hp.inOrder.step conflict_comm Holds.refl (fun ws _ _ _ => Holds.trans ws) holds_apply keeps_prog hserver
  · exact issues_step issues_prog hp.issues hserver

/-- **What a commit finds.** -/
theorem committed_of_commit {p p' : Sys} {i : Nat} (hp : Sound p) (h : step p (.commit i) = some p') :
    ∃ c ws v, p.server.sessions[i]? = some ⟨c, ws, some (.ret v)⟩ ∧ Committed p.server.committed ws ∧
      p'.server = ⟨engine.view ws p.server.committed, p.server.sessions.set i ⟨c, [], none⟩⟩ ∧ p'.store = p.store := by
  obtain ⟨hserver, hstore⟩ := step_some h
  obtain ⟨c, ws, v, hi, heq⟩ := step_commit hserver
  obtain ⟨c', ws', v', hi', hready, -⟩ := hp.inOrder.commit Holds.refl hserver
  rw [hi] at hi'
  obtain ⟨rfl, rfl, -⟩ : c = c' ∧ ws = ws' ∧ v = v' := by simpa using hi'
  exact ⟨c, ws, v, hi, hready, heq, (Option.some.inj hstore).symm⟩

theorem statement_of_step {p p' : Sys} {i : Nat} {a : Answer} (h : step p (.step i a) = some p') :
    ∃ c ws o k r new, p.server.sessions[i]? = some ⟨c, ws, some (.op o k)⟩ ∧
      handle o a (engine.view ws p.server.committed) = some (r, new) ∧ Possible p.store o a = true ∧
      p'.server = { p.server with sessions := p.server.sessions.set i ⟨c, ws ++ new, some (k r)⟩ } ∧
      p'.store = onStore p.store o a := by
  obtain ⟨hserver, hstore⟩ := step_some h
  obtain ⟨c, ws, o, k, r, new, hi, hhandle, -, heq⟩ := step_step hserver
  have hnext : p.next i = some o := by
    unfold Sys.next
    rw [hi]
  obtain ⟨o', ho', hafter⟩ := Option.bind_eq_some_iff.mp hstore
  rw [hnext] at ho'
  obtain rfl := Option.some.inj ho'
  split at hafter
  · next hpossible =>
      exact ⟨c, ws, o, k, r, new, hi, hhandle, hpossible, heq, (Option.some.inj hafter).symm⟩
  · cases hafter

end Irip.Artifacts
