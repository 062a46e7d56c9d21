import Irip.Artifacts.Transactions

/-!
# `Artifacts.Consistency` — when the rows and the objects of artifacts agree

`Careful` says how a transaction may end and when an object may be deleted; `Linked` holds in any case.
-/

namespace Irip.Artifacts

open Runs Server

/-! ## Observations -/

/-- The artifact a write removes. -/
def Write.removes : Write → Option Uuid
  | .deleteArtifact id _ => some id
  | _ => none

/-- The committed artifacts that no open transaction has removed. -/
def Sys.settled (p : Sys) : List (Uuid × Artifact) :=
  p.server.committed.artifacts.entries.filter (fun e =>
    p.server.sessions.all (fun s => s.writes.all (fun w => w.removes ≠ some e.1)))

/-- The blob of an artifact is there, and its object with the content of the digest. -/
def Intact (p : Sys) (row : Artifact) : Prop :=
  ∃ blob data, p.server.committed.blobs.get? row.sha256 = some blob ∧ p.store.get? blob.objectKey = some data ∧
    sha256Bytes data = row.sha256

/-- The session whose commit is next. -/
def committing (t : Transition Sys Step) : Option (Session Call Write Op Res Exn Reply) :=
  match t.act with
  | .commit i => t.pre.server.sessions[i]?
  | _ => none

/-- What a step of the service owes to the artifacts. -/
structure KeepsArtifacts (t : Transition Sys Step) : Prop where
  intact : ∀ e ∈ t.post.settled, Intact t.post e.2
  served : ∀ e ∈ t.post.settled, ∃ data, getBytes t.post.server.committed t.post.store e.1 = .ok data ∧
    sha256Bytes data = e.2.sha256
  cleared : ∀ s ∈ committing t, ∀ id row, .deleteArtifact id row ∈ s.writes →
    t.post.server.committed.references row.sha256 = [] →
    t.post.server.committed.blobs.get? row.sha256 = none ∧ t.post.store.get? (buildObjectKey row.sha256) = none

/-! ## The condition -/

/-- The object of a content is in the store. -/
def Sys.Stored (p : Sys) (sha256 : String) : Prop := (p.store.get? (buildObjectKey sha256)).isSome = true

/-- The object a call deletes. -/
def Op.deletes : Op → Option String
  | .deleteObject key => some key
  | _ => none

/-- An upload may commit while its object is in the store. A deletion may commit where another artifact of the content
stays, or where it takes the blob with it and the object has gone. -/
def Write.MayCommit (p : Sys) (ws : List Write) : Write → Prop
  | .insertArtifact _ row => p.Stored row.sha256
  | .deleteArtifact id row =>
    (∃ e ∈ p.server.committed.artifacts.entries, e.1 ≠ id ∧ e.2.sha256 = row.sha256) ∨
      (.deleteBlob row.sha256 ∈ ws ∧ p.store.get? (buildObjectKey row.sha256) = none)
  | _ => True

/-- A deletion may be undone while the object is in the store. -/
def Write.MayAbort (p : Sys) (w : Write) : Prop :=
  ∀ id ∈ w.removes, ∀ row ∈ p.server.committed.artifacts.get? id, p.Stored row.sha256

/-- A transaction ends where it may, and no object of an artifact that stays is deleted. -/
def Careful (t : Transition Sys Step) : Prop :=
  match t.act with
  | .call _ => True
  | .step i a => a.effective = true → ∀ key ∈ (t.pre.next i).bind Op.deletes, ∀ e ∈ t.pre.settled,
    buildObjectKey e.2.sha256 ≠ key
  | .commit i => ∀ s ∈ t.pre.server.sessions[i]?, ∀ w ∈ s.writes, w.MayCommit t.pre s.writes
  | .abort i => ∀ s ∈ t.pre.server.sessions[i]?, ∀ w ∈ s.writes, w.MayAbort t.pre

/-! ## Invariants -/

/-- Blobs have the key of their digest, artifacts have a blob, and an object is under its own digest. -/
structure Linked (p : Sys) : Prop where
  keyed : ∀ sha256 blob, p.server.committed.blobs.get? sha256 = some blob → blob.objectKey = buildObjectKey sha256
  linked : ∀ id row, p.server.committed.artifacts.get? id = some row →
    (p.server.committed.blobs.get? row.sha256).isSome = true
  contents : ∀ key data, p.store.get? key = some data → key = buildObjectKey (sha256Bytes data)

variable {p p' : Sys} {act : Step}

variable {row : Artifact} {id : Uuid} {ws : List Write} {i : Nat} {s : Session Call Write Op Res Exn Reply}

/-- Of a committed artifact, only the object can be missing. -/
theorem Linked.intact_iff (hp : Linked p)
    (hrow : p.server.committed.artifacts.get? id = some row) : Intact p row ↔ p.Stored row.sha256 := by
  obtain ⟨blob, hblob⟩ := Option.isSome_iff_exists.mp (hp.linked id row hrow)
  have hkey := hp.keyed _ blob hblob
  constructor
  · rintro ⟨blob', data, hblob', hdata, -⟩
    rw [hblob] at hblob'
    obtain rfl := Option.some.inj hblob'
    rw [Sys.Stored, ← hkey, hdata]
    rfl
  · intro hstored
    obtain ⟨data, hdata⟩ := Option.isSome_iff_exists.mp hstored
    refine ⟨blob, data, hblob, ?_, ?_⟩
    · rw [hkey]
      exact hdata
    · exact (buildObjectKey_injective (hp.contents _ data hdata)).symm

theorem Linked.contents_onStore (hp : Linked p) {o : Op} {a : Answer} (ho : PutsContent o) (key : String)
    (data : Bytes) (h : (onStore p.store o a).get? key = some data) : key = buildObjectKey (sha256Bytes data) := by
  unfold onStore at h
  split at h
  · next key' data' contentType =>
      have hkey' : key' = buildObjectKey (sha256Bytes data') := ho
      split at h
      · rw [Dict.get?_set] at h
        split at h
        · next heq =>
            obtain rfl := Option.some.inj h
            exact heq.trans hkey'
        · exact hp.contents key data h
      · exact hp.contents key data h
  · split at h
    · rw [Dict.get?_erase] at h
      split at h
      · cases h
      · exact hp.contents key data h
    · exact hp.contents key data h
  · exact hp.contents key data h

theorem Committed.keyed {d : Database} (h : Committed d ws)
    (hd : ∀ sha256 blob, d.blobs.get? sha256 = some blob → blob.objectKey = buildObjectKey sha256) (sha256 : String)
    (blob : ArtifactBlob) (hblob : (engine.view ws d).blobs.get? sha256 = some blob) :
    blob.objectKey = buildObjectKey sha256 := by
  cases h with
  | nothing => exact hd sha256 blob hblob
  | @upload id row blob' newBlob new key =>
    have hget : (d.blobs.set row.sha256 blob').get? sha256 = some blob := hblob
    rw [Dict.get?_set] at hget
    split at hget
    · next heq =>
        obtain rfl := Option.some.inj hget
        rw [heq]
        exact key
    · exact hd sha256 blob hget
  | share | unlink => exact hd sha256 blob hblob
  | @clear id row sha256' | @sweep sha256' =>
    have hget : (d.blobs.erase sha256').get? sha256 = some blob := hblob
    rw [Dict.get?_erase] at hget
    split at hget
    · cases hget
    · exact hd sha256 blob hget

theorem Committed.artifact {d : Database} (h : Committed d ws)
    (hrow : (engine.view ws d).artifacts.get? id = some row) :
    .insertArtifact id row ∈ ws ∨ (d.artifacts.get? id = some row ∧ ∀ w ∈ ws, w.removes ≠ some id) := by
  cases h with
  | nothing => exact .inr ⟨hrow, List.forall_mem_nil _⟩
  | @upload id' row' blob | @share id' row' =>
    have hget : (d.artifacts.set id' row').get? id = some row := hrow
    rw [Dict.get?_set] at hget
    split at hget
    · next heq =>
        obtain rfl := Option.some.inj hget
        subst heq
        exact .inl (by simp)
    · exact .inr ⟨hget, by simp [Write.removes]⟩
  | @unlink id' row' | @clear id' row' sha256 =>
    have hget : (d.artifacts.erase id').get? id = some row := hrow
    rw [Dict.get?_erase] at hget
    split at hget
    · cases hget
    · next hne =>
        have hne' : ¬ id' = id := fun heq => hne heq.symm
        exact .inr ⟨hget, by simp [Write.removes, hne']⟩
  | sweep => exact .inr ⟨hrow, by simp [Write.removes]⟩

theorem Committed.linked {d : Database} (h : Committed d ws)
    (hd : ∀ id row, d.artifacts.get? id = some row → (d.blobs.get? row.sha256).isSome = true) (id : Uuid)
    (row : Artifact) (hrow : (engine.view ws d).artifacts.get? id = some row) :
    ((engine.view ws d).blobs.get? row.sha256).isSome = true := by
  have hcase := h.artifact hrow
  cases h with
  | nothing => exact hd id row hrow
  | @upload id' row' blob newBlob new key =>
    show ((d.blobs.set row'.sha256 blob).get? row.sha256).isSome = true
    rw [Dict.get?_set]
    split
    · rfl
    · next hne =>
        rcases hcase with hmem | ⟨hold, -⟩
        · obtain ⟨rfl, rfl⟩ : id = id' ∧ row = row' := by simpa using hmem
          exact absurd rfl hne
        · exact hd id row hold
  | @share id' row' found new =>
    rcases hcase with hmem | ⟨hold, -⟩
    · obtain ⟨rfl, rfl⟩ : id = id' ∧ row = row' := by simpa using hmem
      exact found
    · exact hd id row hold
  | unlink found =>
    rcases hcase with hmem | ⟨hold, -⟩
    · simp at hmem
    · exact hd id row hold
  | @clear id' row' sha256 found last =>
    rcases hcase with hmem | ⟨hold, hstay⟩
    · simp at hmem
    · have hne : ¬ row.sha256 = sha256 := by
        intro hsha
        have heq := last id row hold hsha
        subst heq
        exact hstay _ List.mem_cons_self rfl
      show ((d.blobs.erase sha256).get? row.sha256).isSome = true
      rw [Dict.get?_erase, if_neg hne]
      exact hd id row hold
  | @sweep sha256 last =>
    rcases hcase with hmem | ⟨hold, -⟩
    · simp at hmem
    · show ((d.blobs.erase sha256).get? row.sha256).isSome = true
      rw [Dict.get?_erase, if_neg (last id row hold)]
      exact hd id row hold

/-- **The rows and the contents of the store are linked at all times.** -/
theorem linked_step (hs : Sound p) (hp : Linked p) (h : step p act = some p') : Linked p' := by
  cases act with
  | call c =>
    obtain ⟨hserver, hstore⟩ := step_some h
    have hcommitted := committed_step hserver (fun _ => by simp)
    have hsame := Option.some.inj hstore
    exact ⟨hcommitted ▸ hp.keyed, hcommitted ▸ hp.linked, hsame ▸ hp.contents⟩
  | step i a =>
    obtain ⟨c, ws, o, k, r, new, hi, -, -, hserver, hstore⟩ := statement_of_step h
    have hputs : PutsContent o := (hs.issues _ (List.mem_of_getElem? hi) _ rfl).1
    constructor
    · rw [hserver]
      exact hp.keyed
    · rw [hserver]
      exact hp.linked
    · rw [hstore]
      exact hp.contents_onStore hputs
  | commit i =>
    obtain ⟨c, ws, v, -, hcommitted, hserver, hstore⟩ := committed_of_commit hs h
    constructor
    · rw [hserver]
      exact hcommitted.keyed hp.keyed
    · rw [hserver]
      exact hcommitted.linked hp.linked
    · rw [hstore]
      exact hp.contents
  | abort i =>
    obtain ⟨hserver, hstore⟩ := step_some h
    have hcommitted := committed_step hserver (fun _ => by simp)
    have hsame := Option.some.inj hstore
    exact ⟨hcommitted ▸ hp.keyed, hcommitted ▸ hp.linked, hsame ▸ hp.contents⟩

/-! ## Settled artifacts -/

theorem mem_settled : (id, row) ∈ p.settled ↔ p.server.committed.artifacts.get? id = some row ∧
      ∀ s ∈ p.server.sessions, ∀ w ∈ s.writes, w.removes ≠ some id := by
  unfold Sys.settled
  rw [List.mem_filter, Dict.get?_eq_some_iff]
  simp only [List.all_eq_true, decide_eq_true_eq]

/-- Nobody but the `i`-th call has removed the artifact. -/
def Sys.OthersKeep (p : Sys) (i : Nat) (id : Uuid) : Prop :=
  ∀ (j : Nat) s, j ≠ i → p.server.sessions[j]? = some s → ∀ w ∈ s.writes, w.removes ≠ some id

theorem mem_settled_iff (hi : p.server.sessions[i]? = some s) : (id, row) ∈ p.settled ↔
    p.server.committed.artifacts.get? id = some row ∧ (∀ w ∈ s.writes, w.removes ≠ some id) ∧ p.OthersKeep i id := by
  rw [mem_settled]
  refine and_congr_right fun _ => ⟨fun hall => ?_, fun hsplit => ?_⟩
  · exact ⟨hall s (List.mem_of_getElem? hi), fun j t _ hj => hall t (List.mem_of_getElem? hj)⟩
  · intro t ht
    obtain ⟨j, hj⟩ := List.mem_iff_getElem?.mp ht
    by_cases hji : j = i
    · rw [hji, hi] at hj
      obtain rfl := Option.some.inj hj
      exact hsplit.1
    · exact hsplit.2 j t hji hj

theorem mem_settled_set {t : Session Call Write Op Res Exn Reply} (hi : p.server.sessions[i]? = some s)
    (hsessions : p'.server.sessions = p.server.sessions.set i t) : (id, row) ∈ p'.settled ↔
    p'.server.committed.artifacts.get? id = some row ∧ (∀ w ∈ t.writes, w.removes ≠ some id) ∧ p.OthersKeep i id := by
  have hlt : i < p.server.sessions.length := (List.getElem?_eq_some_iff.mp hi).1
  have hi' : p'.server.sessions[i]? = some t := by
    rw [hsessions, List.getElem?_set_self hlt]
  rw [mem_settled_iff hi']
  refine and_congr_right fun _ => and_congr_right fun _ => ?_
  refine forall_congr' fun j => forall_congr' fun u => forall_congr' fun hji => ?_
  rw [hsessions, List.getElem?_set_ne (fun heq => hji heq.symm)]

theorem othersKeep_of_mem (hs : Sound p)
    (hi : p.server.sessions[i]? = some s) {w : Write} (hw : w ∈ s.writes) (hid : w.artifact = some id) :
    p.OthersKeep i id := by
  intro j t hji hj w' hw' hremoves
  have hfree := free_of_not_conflict (hs.inOrder.apart j i t s hji hj hi w' hw' w hw)
  refine hfree.artifact id hid ?_
  cases w' with
  | deleteArtifact id' row => exact hremoves
  | _ => cases hremoves

/-! ## Commits -/

theorem Committed.cleared_iff (hp : Linked p) (h : Committed p.server.committed ws)
    (hw : .deleteArtifact id row ∈ ws) : ((engine.view ws p.server.committed).references row.sha256 = [] →
      (engine.view ws p.server.committed).blobs.get? row.sha256 = none ∧
        p.store.get? (buildObjectKey row.sha256) = none) ↔ (Write.deleteArtifact id row).MayCommit p ws := by
  -- the artifact has been there, and its blob
  have hfound : p.server.committed.artifacts.get? id = some row := by
    cases h <;> simp_all
  have hblob := hp.linked id row hfound
  have hrefs : (engine.view ws p.server.committed).references row.sha256 = [] ↔
      ¬ ∃ e ∈ p.server.committed.artifacts.entries, e.1 ≠ id ∧ e.2.sha256 = row.sha256 := by
    have hview : ∀ k r, (engine.view ws p.server.committed).artifacts.get? k = some r ↔
        k ≠ id ∧ p.server.committed.artifacts.get? k = some r := by
      intro k r
      have herase : (engine.view ws p.server.committed).artifacts = p.server.committed.artifacts.erase id := by
        cases h <;> simp_all [engine, Write.apply]
      rw [herase, Dict.get?_erase]
      by_cases hk : k = id
      · simp [hk]
      · simp [hk]
    rw [List.eq_nil_iff_forall_not_mem]
    constructor
    · rintro hnone ⟨⟨k, r⟩, he, hne, hsha⟩
      refine hnone k (Dict.mem_keysWhere.mpr ⟨r, (hview k r).mpr ⟨hne, ?_⟩, by simpa using hsha⟩)
      exact Dict.get?_eq_some_iff.mpr he
    · intro hnone k hk
      obtain ⟨r, hr, hsha⟩ := Dict.mem_keysWhere.mp hk
      obtain ⟨hne, hold⟩ := (hview k r).mp hr
      exact hnone ⟨(k, r), Dict.get?_eq_some_iff.mp hold, hne, by simpa using hsha⟩
  have hgone : (engine.view ws p.server.committed).blobs.get? row.sha256 = none ↔ .deleteBlob row.sha256 ∈ ws := by
    cases h with
    | nothing => simp at hw
    | upload => simp at hw
    | share => simp at hw
    | sweep => simp at hw
    | unlink =>
      refine iff_of_false (fun hnone => ?_) (by simp)
      have hsame : p.server.committed.blobs.get? row.sha256 = none := hnone
      rw [hsame] at hblob
      cases hblob
    | @clear id' row' sha256 =>
      show (p.server.committed.blobs.erase sha256).get? row.sha256 = none ↔ _
      rw [Dict.get?_erase]
      by_cases hsha : row.sha256 = sha256
      · simp [hsha]
      · rw [if_neg hsha]
        refine iff_of_false (fun hnone => ?_) (by simpa using hsha)
        rw [hnone] at hblob
        cases hblob
  rw [hrefs, hgone]
  show _ ↔ (_ ∨ _)
  constructor
  · intro himp
    by_cases hother : ∃ e ∈ p.server.committed.artifacts.entries, e.1 ≠ id ∧ e.2.sha256 = row.sha256
    · exact .inl hother
    · exact .inr (himp hother)
  · rintro (hother | hboth) hnone
    · exact absurd hother hnone
    · exact hboth

/-! ## Runs -/

/-- The settled artifacts are all intact. -/
def AllIntact (p : Sys) : Prop := ∀ e ∈ p.settled, Intact p e.2

theorem stored_of_settled (hp : Linked p) (hall : AllIntact p) (h : (id, row) ∈ p.settled) : p.Stored row.sha256 :=
  (hp.intact_iff (mem_settled.mp h).1).mp (hall _ h)

theorem allIntact_iff (hp : Linked p) : AllIntact p ↔ ∀ id row, (id, row) ∈ p.settled → p.Stored row.sha256 := by
  constructor
  · exact fun hall id row h => stored_of_settled hp hall h
  · rintro hall ⟨id, row⟩ h
    exact (hp.intact_iff (mem_settled.mp h).1).mpr (hall id row h)

theorem artifactWithBlob_eq {blob : ArtifactBlob} (hrow : p.server.committed.artifacts.get? id = some row)
    (hblob : p.server.committed.blobs.get? row.sha256 = some blob) :
    p.server.committed.artifactWithBlob id = some (row, blob) := by
  rw [Database.artifactWithBlob, hrow]
  show (p.server.committed.blobs.get? row.sha256).bind (fun blob => some (row, blob)) = _
  rw [hblob]
  rfl

theorem getBytes_of_intact (hrow : p.server.committed.artifacts.get? id = some row)
    (h : Intact p row) : ∃ data, getBytes p.server.committed p.store id = .ok data ∧ sha256Bytes data = row.sha256 := by
  obtain ⟨blob, data, hblob, hdata, hsha⟩ := h
  refine ⟨data, ?_, hsha⟩
  unfold getBytes
  rw [artifactWithBlob_eq hrow hblob]
  dsimp only
  rw [hdata]

theorem keepsArtifacts_of {t : Transition Sys Step} (hintact : AllIntact t.post)
    (hcleared : ∀ s ∈ committing t, ∀ id row, .deleteArtifact id row ∈ s.writes →
      t.post.server.committed.references row.sha256 = [] →
      t.post.server.committed.blobs.get? row.sha256 = none ∧ t.post.store.get? (buildObjectKey row.sha256) = none) :
    KeepsArtifacts t where
  intact := hintact
  served := fun e he => getBytes_of_intact (mem_settled.mp he).1 (hintact e he)
  cleared := hcleared

theorem allIntact_call (hp' : Linked p') (hp : Linked p) (hall : AllIntact p)
    (hsettled : ∀ e ∈ p'.settled, e ∈ p.settled)
    (hstore : ∀ e ∈ p.settled, p.Stored e.2.sha256 → p'.Stored e.2.sha256) : AllIntact p' := by
  rw [allIntact_iff hp']
  intro id row h
  have hold := hsettled (id, row) h
  have hstored : p.Stored row.sha256 := stored_of_settled hp hall hold
  exact hstore (id, row) hold hstored

/-- A statement keeps the settled artifacts intact unless it deletes the object of one. -/
theorem allIntact_statement {a : Answer} (hp : Linked p) (hp' : Linked p') (hall : AllIntact p)
    (h : step p (.step i a) = some p') : AllIntact p' ↔ Careful ⟨p, .step i a, p'⟩ := by
  obtain ⟨c, ws, o, k, r, new, hi, hhandle, -, hserver, hstore⟩ := statement_of_step h
  have hnext : p.next i = some o := by
    unfold Sys.next
    rw [hi]
  have hsessions : p'.server.sessions = p.server.sessions.set i ⟨c, ws ++ new, some (k r)⟩ := by rw [hserver]
  have hcommitted : p'.server.committed = p.server.committed := by rw [hserver]
  constructor
  · intro hall' heffective key hkey e he heq
    -- the call deletes an object and writes no row
    rw [hnext] at hkey
    cases o with
    | deleteObject key' =>
      obtain rfl := Option.some.inj hkey
      obtain ⟨-, rfl⟩ := answer_inj hhandle
      obtain ⟨id, row⟩ := e
      have hsettled : (id, row) ∈ p'.settled := by
        rw [mem_settled_set hi hsessions, hcommitted, List.append_nil]
        exact (mem_settled_iff hi).mp he
      have hstored := stored_of_settled hp' hall' hsettled
      rw [Sys.Stored, hstore, onStore, if_pos heffective, Dict.get?_erase, if_pos heq] at hstored
      cases hstored
    | _ => cases hkey
  · intro hcareful
    refine allIntact_call hp' hp hall ?_ ?_
    · rintro ⟨id, row⟩ he
      obtain ⟨hrow, hown, hothers⟩ := (mem_settled_set hi hsessions).mp he
      rw [hcommitted] at hrow
      exact (mem_settled_iff hi).mpr ⟨hrow, fun w hw => hown w (List.mem_append_left new hw), hothers⟩
    · intro e he hstored
      rw [Sys.Stored, hstore]
      cases o with
      | putObject key data contentType =>
        rw [onStore]
        split
        · rw [Dict.get?_set]
          split
          · rfl
          · exact hstored
        · exact hstored
      | deleteObject key =>
        rw [onStore]
        split
        · next heffective =>
            have hne := hcareful heffective key (by rw [hnext]; rfl) e he
            rw [Dict.get?_erase, if_neg hne]
            exact hstored
        · exact hstored
      | _ => exact hstored

theorem keepsArtifacts_commit (hs : Sound p) (hp : Linked p) (hp' : Linked p') (hall : AllIntact p)
    (h : step p (.commit i) = some p') : KeepsArtifacts ⟨p, .commit i, p'⟩ ↔ Careful ⟨p, .commit i, p'⟩ := by
  obtain ⟨c, ws, v, hi, hcommitted, hserver, hstore⟩ := committed_of_commit hs h
  have hsessions : p'.server.sessions = p.server.sessions.set i ⟨c, [], none⟩ := by rw [hserver]
  have hview : p'.server.committed = engine.view ws p.server.committed := by rw [hserver]
  have hstored : ∀ sha256, p'.Stored sha256 ↔ p.Stored sha256 := fun sha256 => by rw [Sys.Stored, hstore]; rfl
  constructor
  · rintro ⟨hintact, -, hcleared⟩ s hsi w hw
    have hsi' : p.server.sessions[i]? = some s := hsi
    rw [hi] at hsi'
    obtain rfl := Option.some.inj hsi'
    cases w with
    | insertArtifact id row =>
      -- the new artifact is settled
      have hrow : p'.server.committed.artifacts.get? id = some row := by
        rw [hview]
        cases hcommitted <;> simp_all [engine, Write.apply]
      have hsettled : (id, row) ∈ p'.settled :=
        (mem_settled_set hi hsessions).mpr ⟨hrow, List.forall_mem_nil _, othersKeep_of_mem hs hi hw rfl⟩
      exact (hstored row.sha256).mp (stored_of_settled hp' hintact hsettled)
    | deleteArtifact id row =>
      refine (hcommitted.cleared_iff hp hw).mp fun hnone => ?_
      have hclear := hcleared _ hi id row hw (by rw [hview]; exact hnone)
      rwa [hview, hstore] at hclear
    | insertBlob sha256 row => trivial
    | deleteBlob sha256 => trivial
  · intro hcareful
    have hmay : ∀ w ∈ ws, w.MayCommit p ws := hcareful _ hi
    refine keepsArtifacts_of ?_ ?_
    · refine (allIntact_iff hp').mpr fun id row he => (hstored row.sha256).mpr ?_
      obtain ⟨hrow, -, hothers⟩ := (mem_settled_set hi hsessions).mp he
      rw [hview] at hrow
      rcases hcommitted.artifact hrow with hnew | ⟨hold, hstay⟩
      · exact hmay _ hnew
      · exact stored_of_settled hp hall ((mem_settled_iff hi).mpr ⟨hold, hstay, hothers⟩)
    · intro s hsi id row hw hnone
      have hsi' : p.server.sessions[i]? = some s := hsi
      rw [hi] at hsi'
      obtain rfl := Option.some.inj hsi'
      rw [hview] at hnone ⊢
      rw [hstore]
      exact (hcommitted.cleared_iff hp hw).mpr (hmay _ hw) hnone

theorem allIntact_abort (hs : Sound p) (hp : Linked p) (hp' : Linked p') (hall : AllIntact p)
    (h : step p (.abort i) = some p') : AllIntact p' ↔ Careful ⟨p, .abort i, p'⟩ := by
  obtain ⟨hserver, hafter⟩ := step_some h
  obtain ⟨c, ws, q, hi, heq⟩ := step_abort hserver
  have hstore : p'.store = p.store := (Option.some.inj hafter).symm
  have hsessions : p'.server.sessions = p.server.sessions.set i ⟨c, [], none⟩ := by rw [heq]
  have hcommitted : p'.server.committed = p.server.committed := by rw [heq]
  have hstored : ∀ sha256, p'.Stored sha256 ↔ p.Stored sha256 := fun sha256 => by rw [Sys.Stored, hstore]; rfl
  rw [allIntact_iff hp']
  constructor
  · intro hall' s hsi w hw id hid row hrow
    have hsi' : p.server.sessions[i]? = some s := hsi
    rw [hi] at hsi'
    obtain rfl := Option.some.inj hsi'
    refine (hstored row.sha256).mp (hall' id row ((mem_settled_set hi hsessions).mpr ⟨?_, ?_, ?_⟩))
    · rw [hcommitted]
      exact hrow
    · exact List.forall_mem_nil _
    · refine othersKeep_of_mem hs hi hw ?_
      cases w with
      | deleteArtifact id' row' => exact hid
      | _ => cases hid
  · intro hcareful id row he
    obtain ⟨hrow, -, hothers⟩ := (mem_settled_set hi hsessions).mp he
    rw [hcommitted] at hrow
    refine (hstored row.sha256).mpr ?_
    by_cases hremoved : ∃ w ∈ ws, w.removes = some id
    · obtain ⟨w, hw, hid⟩ := hremoved
      exact hcareful _ hi w hw id hid row hrow
    · have hstay : ∀ w ∈ ws, w.removes ≠ some id := fun w hw hid => hremoved ⟨w, hw, hid⟩
      exact stored_of_settled hp hall ((mem_settled_iff hi).mpr ⟨hrow, hstay, hothers⟩)

theorem keepsArtifacts_step (hs : Sound p) (hp : Linked p) (hall : AllIntact p) (h : step p act = some p') :
    KeepsArtifacts ⟨p, act, p'⟩ ↔ Careful ⟨p, act, p'⟩ := by
  have hp' := linked_step hs hp h
  have hquiet : committing ⟨p, act, p'⟩ = none → (KeepsArtifacts ⟨p, act, p'⟩ ↔ AllIntact p') := by
    intro hnone
    refine ⟨fun hkeeps => hkeeps.intact, fun hintact => keepsArtifacts_of hintact fun s hsome => ?_⟩
    rw [hnone] at hsome
    cases hsome
  cases act with
  | call c =>
    rw [hquiet rfl]
    refine iff_of_true ?_ trivial
    obtain ⟨hserver, hstore⟩ := step_some h
    have hsame : p.store = p'.store := Option.some.inj hstore
    have hnew := Option.some.inj hserver
    refine allIntact_call hp' hp hall ?_ ?_
    · rintro ⟨id, row⟩ he
      obtain ⟨hrow, hkeep⟩ := mem_settled.mp he
      rw [← hnew] at hrow hkeep
      exact mem_settled.mpr ⟨hrow, fun s hs => hkeep s (List.mem_append_left _ hs)⟩
    · intro e _ hstored
      rw [Sys.Stored, ← hsame]
      exact hstored
  | step i a => rw [hquiet rfl, allIntact_statement hp hp' hall h]
  | commit i => exact keepsArtifacts_commit hs hp hp' hall h
  | abort i => rw [hquiet rfl, allIntact_abort hs hp hp' hall h]

/-- The state the service starts in. -/
def start (d : Database) (store : Store) : Sys := ⟨⟨d, []⟩, store⟩

theorem sound_start (d : Database) (store : Store) : Sound (start d store) := by
  constructor
  · constructor
    · intro i s hi
      cases hi
    · intro i j s t _ hi
      cases hi
  · intro s hs
    cases hs

/-- **Rows and objects agree in exactly the careful runs.** -/
theorem keepsArtifacts_iff {d : Database} {store : Store} {ts : List (Transition Sys Step)} {p : Sys}
    (hr : Run step (start d store) ts p) (hlinked : Linked (start d store)) (hintact : AllIntact (start d store)) :
    (∀ t ∈ ts, KeepsArtifacts t) ↔ ∀ t ∈ ts, Careful t := by
  refine hr.forall_congr (I := fun p => Sound p ∧ Linked p ∧ AllIntact p) ?_ ⟨sound_start d store, hlinked, hintact⟩
  rintro p act p' h ⟨hs, hp, hall⟩
  have hiff := keepsArtifacts_step hs hp hall h
  exact ⟨hiff, fun hcareful => ⟨sound_step hs h, linked_step hs hp h, (hiff.mpr hcareful).intact⟩⟩

/-- Whatever is read has the digest of its artifact. -/
def ReadsOwn (p : Sys) : Prop :=
  ∀ id row data, p.server.committed.artifacts.get? id = some row →
    getBytes p.server.committed p.store id = .ok data → sha256Bytes data = row.sha256

theorem linked_empty : Linked (start {} ∅) := by
  constructor
  · intro sha256 blob h
    cases h
  · intro id row h
    cases h
  · intro key data h
    cases h

/-- **No reader is served the wrong content.** In every state that any interleaving of uploads and deletions reaches,
careful or not, with calls to the store that fail and transactions that abort, objects are under their own digest,
artifacts have a blob, and what is read of an artifact has its digest, although nobody compares it. -/
theorem reads_own (acts : List Step) :
    Linked (Runs.final (start {} ∅) (play step (start {} ∅) acts)) ∧
      ReadsOwn (Runs.final (start {} ∅) (play step (start {} ∅) acts)) := by
  have hrun : Run step (start {} ∅) _ _ := play_run (start {} ∅) acts
  have hlinked := (hrun.last (I := fun p => Sound p ∧ Linked p) ⟨sound_start {} ∅, linked_empty⟩ fun t ht hp =>
    ⟨sound_step hp.1 (hrun.step_of_mem ht), linked_step hp.1 hp.2 (hrun.step_of_mem ht)⟩).2
  refine ⟨hlinked, fun id row data hrow hread => ?_⟩
  obtain ⟨blob, hblob⟩ := Option.isSome_iff_exists.mp (hlinked.linked id row hrow)
  unfold getBytes at hread
  rw [artifactWithBlob_eq hrow hblob] at hread
  dsimp only at hread
  split at hread
  · cases hread
  · next found hfound =>
    obtain rfl := Except.ok.inj hread
    -- the object is under the key of the blob, and so under that of its content
    rw [hlinked.keyed _ blob hblob] at hfound
    exact (buildObjectKey_injective (hlinked.contents _ found hfound)).symm

/-! ### Two runs -/

instance (p : Sys) (sha256 : String) : Decidable (p.Stored sha256) := inferInstanceAs (Decidable (_ = true))

instance (p : Sys) (ws : List Write) : DecidablePred (Write.MayCommit p ws) := fun w => by
  unfold Write.MayCommit
  split <;> infer_instance

instance (p : Sys) : DecidablePred (Write.MayAbort p) := fun w =>
  inferInstanceAs (Decidable (∀ id ∈ w.removes, ∀ row ∈ p.server.committed.artifacts.get? id, p.Stored row.sha256))

instance : DecidablePred Careful := fun t => by
  unfold Careful
  split <;> infer_instance

/-- The content of the runs. -/
def report : Bytes := [0x61, 0x62, 0x63]

/-- A report is uploaded. -/
def uploaded : List Step :=
  [.call (.putBytes ⟨"dept", "ana"⟩ report "text/plain" "report.txt"), .step 0 {}, .step 0 {}, .step 0 {},
   .step 0 { id := "a" }, .step 0 {}, .commit 0]

/-- The report is uploaded twice, and both artifacts are deleted, with the blob and the object at last. -/
def shared : List (Transition Sys Step) := play step (start {} ∅) (uploaded ++
  [.call (.putBytes ⟨"dept", "ben"⟩ report "text/plain" "copy.txt"), .step 1 {}, .step 1 {}, .step 1 { id := "b" },
   .step 1 {}, .commit 1,
   .call (.deleteArtifact "a"), .step 2 {}, .step 2 {}, .step 2 {}, .commit 2,
   .call (.deleteArtifact "b"), .step 3 {}, .step 3 {}, .step 3 {}, .step 3 {}, .step 3 {}, .commit 3])

/-- The commit of the deletion fails, and the object has gone. -/
def undone : List (Transition Sys Step) := play step (start {} ∅) (uploaded ++
  [.call (.deleteArtifact "a"), .step 1 {}, .step 1 {}, .step 1 {}, .step 1 {}, .step 1 {}, .abort 1])

theorem keepsArtifacts_shared : shared.length = 25 ∧ ∀ t ∈ shared, KeepsArtifacts t := by
  have hcareful : ∀ t ∈ shared, Careful t := by decide +kernel
  refine ⟨by decide +kernel, (keepsArtifacts_iff (play_run (start {} ∅) _) ?_ ?_).mpr hcareful⟩
  · constructor
    · intro sha256 blob h
      cases h
    · intro id row h
      cases h
    · intro key data h
      cases h
  · intro e he
    cases he

theorem not_keepsArtifacts : ¬ ∀ t ∈ undone, KeepsArtifacts t := by
  intro hall
  have hlost : ∃ t ∈ undone, ∃ e ∈ t.post.settled, t.post.store.get? (buildObjectKey e.2.sha256) = none ∧
      (t.post.server.committed.blobs.get? e.2.sha256).map ArtifactBlob.objectKey =
        some (buildObjectKey e.2.sha256) := by decide +kernel
  obtain ⟨t, ht, e, he, hnone, hkey⟩ := hlost
  obtain ⟨blob, data, hblob, hdata, -⟩ := (hall t ht).intact e he
  rw [hblob] at hkey
  have heq : blob.objectKey = buildObjectKey e.2.sha256 := Option.some.inj hkey
  rw [heq, hnone] at hdata
  cases hdata

end Irip.Artifacts
