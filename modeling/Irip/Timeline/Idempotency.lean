import Irip.Timeline.Commits

/-!
# `Timeline.Idempotency` — turns are numbered from one on, and a request repeated under its key finds its turn

A number that was read before the workspace was locked is refused by the index, and so is a second turn under a key: what is
requested while the first request is still open is answered with an error of the database.
-/

namespace Irip.Timeline

variable {alone : Prop} {ws ws' : List Write} {d d' : Database} {new : NewTurn} {n : Nat} {id : Uuid}

/-! ## Programs -/

section Programs

variable {r : Request} {service : Service} {refresh : Bool}

/-- The programs of the service, under what a transaction relies on. -/
abbrev Keeps (alone : Prop) (r : Request) (q : M Reply) (d : Database) (ws : List Write) : Prop :=
  Server.InOrder engine (Holds alone) (Ready alone) r q d ws

theorem keeps_refused {e : Exn} (hasks : r.call.asks = some (service, new)) (h : ¬ Admits service new r.made) :
    Keeps alone r (.raise e) d ws := by
  intro x _ service' new' hasks' hadmits
  rw [hasks] at hasks'
  obtain ⟨rfl, rfl⟩ := answer_inj hasks'
  exact absurd hadmits h

theorem keeps_failed {e : Exn} (hasks : r.call.asks = some (service, new))
    (hmissed : .missed new.workspaceId new.idempotencyKey ∈ ws)
    (hfree : alone → NoTurn d new.workspaceId new.idempotencyKey) : Keeps alone r (.raise e) d ws := by
  rintro ⟨d', ws'⟩ ⟨hws, hholds⟩ service' new' hasks' _
  obtain rfl : ws' = ws := hws
  rw [hasks] at hasks'
  obtain ⟨rfl, rfl⟩ := answer_inj hasks'
  exact ⟨hmissed, fun ha => hholds.missed ha _ _ hmissed (hfree ha)⟩

theorem keeps_checkRevisions {ids : List Uuid} {k : Unit → M Reply} (hasks : r.call.asks = some (service, new))
    (hadmits : Admits service new r.made → ∀ id ∈ ids, RevisionIn d new.workspaceId id)
    (hk : ∀ d', Holds alone [] d d' → (∀ id ∈ ids, RevisionIn d' new.workspaceId id) → Keeps alone r (k ()) d' []) :
    Keeps alone r (checkRevisions new.workspaceId ids >>= k) d [] := by
  induction ids generalizing d with
  | nil => exact hk d (.refl alone [] d) (List.forall_mem_nil _)
  | cons id ids ih =>
    refine Server.InOrder.read (fun _ _ _ _ => written_eq) fun d₁ h₁ _ revision hread => ?_
    obtain rfl : d₁.revisions.get? id = revision := (answer_inj hread).1
    cases hrevision : d₁.revisions.get? id with
    | none =>
      refine keeps_refused hasks fun hadm => ?_
      obtain ⟨_, _, hget, _⟩ := h₁.revisionIn (hadmits hadm id List.mem_cons_self)
      rw [hrevision] at hget
      cases hget
    | some revision =>
      refine Server.InOrder.read (fun _ _ _ _ => written_eq)
        fun d₂ h₂ _ conclusion hread₂ => ?_
      obtain rfl : d₂.conclusions.get? revision.conclusionId = conclusion := (answer_inj hread₂).1
      have hrevision₂ := h₂.revision id revision hrevision
      -- the conclusion an admitted request would find here
      have hfound : Admits service new r.made → ∃ c, d₂.conclusions.get? revision.conclusionId = some c ∧
          c.workspaceId = new.workspaceId := by
        intro hadm
        obtain ⟨_, c, hget, hc, hw⟩ := h₂.revisionIn (h₁.revisionIn (hadmits hadm id List.mem_cons_self))
        rw [hrevision₂] at hget
        obtain rfl := Option.some.inj hget
        exact ⟨c, hc, hw⟩
      cases hconclusion : d₂.conclusions.get? revision.conclusionId with
      | none =>
        refine keeps_refused hasks fun hadm => ?_
        obtain ⟨_, hc, _⟩ := hfound hadm
        rw [hconclusion] at hc
        cases hc
      | some conclusion =>
        show Keeps alone r ((if conclusion.workspaceId ≠ new.workspaceId then Prog.raise (conclusionForeign id)
          else checkRevisions new.workspaceId ids) >>= k) d₂ []
        by_cases hw : conclusion.workspaceId = new.workspaceId
        · rw [if_neg (not_not.mpr hw)]
          refine ih ?_ fun d₃ h₃ hids => hk d₃ ((h₁.trans h₂).trans h₃) ?_
          · exact fun hadm id' hid' =>
              h₂.revisionIn (h₁.revisionIn (hadmits hadm id' (List.mem_cons_of_mem _ hid')))
          · rw [List.forall_mem_cons]
            exact ⟨h₃.revisionIn ⟨revision, conclusion, hrevision₂, hconclusion, hw⟩, hids⟩
        · rw [if_pos hw]
          refine keeps_refused hasks fun hadm => ?_
          obtain ⟨c, hc, hcw⟩ := hfound hadm
          rw [hconclusion] at hc
          obtain rfl := Option.some.inj hc
          exact hw hcw

theorem keeps_made (actorId : Uuid) (hasks : r.call.asks = some (service, new)) (hmade : Made new n id d)
    (hws : ws = creation new actorId id n) : Keeps alone r (.ret (.turn ((new.row n).ref id))) d ws := by
  subst hws
  refine Server.InOrder.ret fun d' hd' => ?_
  unfold Ready
  rw [hasks]
  have hlock : .lockWorkspace new.workspaceId ∈ creation new actorId id n := by
    simp [creation]
  have hinsert : .insertTurn id (new.row n) ∈ creation new actorId id n := by
    simp [creation]
  exact .inr ⟨actorId, id, n, rfl, rfl, hmade.holds hd' hlock hinsert⟩

theorem keeps_inserted {actorId : Uuid} (hasks : r.call.asks = some (service, new)) (hmade : Made new n id d)
    (hws : ws = [.missed new.workspaceId new.idempotencyKey, .lockWorkspace new.workspaceId,
      .setNextTurnNumber new.workspaceId (n + 1), .insertTurn id (new.row n)]) :
    Keeps alone r ((if new.revisionIds = [] then do
        let _ ← ask (.recordAudit (new.event actorId id n))
        return (new.row n).ref id
      else do
        let _ ← ask (.insertTurnContext (new.contexts id))
        let _ ← ask (.recordAudit (new.event actorId id n))
        return (new.row n).ref id : M TurnRef) >>= fun ref => .ret (.turn ref)) d ws := by
  have hlock : .lockWorkspace new.workspaceId ∈ ws := by
    simp [hws]
  have hinsert : .insertTurn id (new.row n) ∈ ws := by
    simp [hws]
  by_cases hnone : new.revisionIds = []
  · rw [if_pos hnone]
    refine Server.InOrder.op fun d₁ h₁ a _ new₁ hhandle => ?_
    obtain rfl : [.recordAudit (new.event actorId id n)] = new₁ := (answer_inj hhandle).2
    refine keeps_made actorId hasks (hmade.holds h₁ hlock hinsert) ?_
    rw [hws, creation, if_pos hnone]
    rfl
  · rw [if_neg hnone]
    refine Server.InOrder.op fun d₁ h₁ a _ new₁ hhandle => ?_
    obtain rfl : [.insertTurnContext (new.contexts id)] = new₁ := (answer_inj hhandle).2
    refine Server.InOrder.op fun d₂ h₂ a₂ _ new₂ hhandle₂ => ?_
    obtain rfl : [.recordAudit (new.event actorId id n)] = new₂ := (answer_inj hhandle₂).2
    have hmade₁ := hmade.holds h₁ hlock hinsert
    refine keeps_made actorId hasks ?_ ?_
    · exact hmade₁.holds h₂ (List.mem_append_left _ hlock) (List.mem_append_left _ hinsert)
    · rw [hws, creation, if_neg hnone]

/-- A turn that the unique indexes let pass, of a workspace that is locked, has the next number. -/
theorem made_of_free {w : ResearchWorkspace} (hd : Consistent d) (hw : d.workspaces.get? new.workspaceId = some w)
    (hpos : 1 ≤ n) (hle : n ≤ w.nextTurnNumber) (htaken : taken d id (new.row n) = false)
    (hsnapshot : SnapshotIn d new.workspaceId new.evidenceSnapshotId)
    (hrevisions : ∀ r ∈ new.revisionIds, RevisionIn d new.workspaceId r) : Made new n id d := by
  obtain ⟨hid, hnone⟩ := Bool.or_eq_false_iff.mp htaken
  have hfree := Dict.anyRow_eq_false_iff.mp hnone
  refine ⟨⟨w, hw, ?_⟩, by simpa using hid, fun id' t ht => ?_, hsnapshot, hrevisions⟩
  · by_contra hne
    obtain ⟨id', t, ht, htw, htn⟩ := ((hd.numbered _ w hw).2 n).mpr ⟨hpos, by omega⟩
    have hrow := hfree id' t ht
    rw [decide_eq_true (show t.workspaceId = (new.row n).workspaceId from htw),
      decide_eq_true (show t.turnNumber = (new.row n).turnNumber from htn)] at hrow
    cases hrow
  · have hrow := hfree id' t ht
    by_contra hunder
    have hunder : t.isUnder new.workspaceId new.idempotencyKey = true := by simpa using hunder
    simp only [ResearchTurn.isUnder, Bool.and_eq_true, decide_eq_true_eq] at hunder
    rw [decide_eq_true (show t.workspaceId = (new.row n).workspaceId from hunder.1),
      decide_eq_true (show t.idempotencyKey = (new.row n).idempotencyKey from hunder.2), Bool.or_true] at hrow
    cases hrow

theorem keeps_insertNew {actorId : Uuid} {loaded w : ResearchWorkspace} (hasks : r.call.asks = some (service, new))
    (hd : Consistent d) (hw : d.workspaces.get? new.workspaceId = some w) (hpos : 1 ≤ loaded.nextTurnNumber)
    (hle : loaded.nextTurnNumber ≤ w.nextTurnNumber)
    (hsnapshot : SnapshotIn d new.workspaceId new.evidenceSnapshotId)
    (hrevisions : ∀ r ∈ new.revisionIds, RevisionIn d new.workspaceId r)
    (hfree : NoTurn d new.workspaceId new.idempotencyKey) :
    Keeps alone r (insertNew refresh actorId loaded new >>= fun ref => .ret (.turn ref)) d
      [.missed new.workspaceId new.idempotencyKey] := by
  refine Server.InOrder.op fun d₁ h₁ a selected new₁ hhandle => ?_
  have hfree₁ : alone → NoTurn d₁ new.workspaceId new.idempotencyKey :=
    fun ha => h₁.missed ha _ _ List.mem_cons_self hfree
  obtain ⟨w₁, hw₁, _, hle₁⟩ := h₁.workspace _ w hw
  have hread : engine.handle (.selectWorkspaceForUpdate new.workspaceId) a
      (engine.view [.missed new.workspaceId new.idempotencyKey] d₁) =
        some (some w₁, [.lockWorkspace new.workspaceId]) := by
    show handle (.selectWorkspaceForUpdate new.workspaceId) a d₁ = _
    rw [handle, hw₁]
  rw [hread] at hhandle
  obtain ⟨rfl, rfl⟩ := answer_inj hhandle
  -- the number that is allocated is not above the counter of the row that is locked
  obtain ⟨n, hn⟩ : ∃ n, n = (if refresh then w₁ else loaded).nextTurnNumber := ⟨_, rfl⟩
  have hd₁ := h₁.consistent hd
  have hnpos : 1 ≤ n := by
    rw [hn]
    split
    · exact (hd₁.numbered _ w₁ hw₁).1
    · exact hpos
  have hnle : n ≤ w₁.nextTurnNumber := by
    rw [hn]
    split
    · exact Nat.le_refl _
    · exact Nat.le_trans hle hle₁
  refine Server.InOrder.op fun d₂ h₂ a₂ _ new₂ hhandle₂ => ?_
  obtain rfl : [.setNextTurnNumber new.workspaceId (n + 1)] = new₂ := by
    rw [hn]
    exact (answer_inj hhandle₂).2
  refine Server.InOrder.op fun d₃ h₃ a₃ id new₃ hhandle₃ => ?_
  obtain rfl : [] = new₃ := (answer_inj hhandle₃).2
  refine Server.InOrder.op fun d₄ h₄ a₄ inserted new₄ hhandle₄ => ?_
  subst hn
  have hgrows : Grows d₁ d₄ := (h₂.toGrows.trans h₃.toGrows).trans h₄.toGrows
  have hfree₄ : alone → NoTurn d₄ new.workspaceId new.idempotencyKey := fun ha =>
    h₄.missed ha _ _ List.mem_cons_self (h₃.missed ha _ _ List.mem_cons_self (h₂.missed ha _ _ List.mem_cons_self (hfree₁ ha)))
  have hinsert : (if taken d₄ id (new.row (if refresh then w₁ else loaded).nextTurnNumber) = true then
      some (.error .integrityError, [])
    else some (.ok (), [.insertTurn id (new.row (if refresh then w₁ else loaded).nextTurnNumber)])) =
      some (inserted, new₄) := hhandle₄
  by_cases htaken : taken d₄ id (new.row (if refresh then w₁ else loaded).nextTurnNumber) = true
  · rw [if_pos htaken] at hinsert
    obtain ⟨rfl, rfl⟩ := answer_inj hinsert
    exact keeps_failed hasks List.mem_cons_self hfree₄
  · rw [if_neg htaken] at hinsert
    obtain ⟨rfl, rfl⟩ := answer_inj hinsert
    -- the row has been locked since its number was read, and the number is not above its counter
    have hw₄ : d₄.workspaces.get? new.workspaceId = some w₁ := by
      rw [(h₄.locked new.workspaceId (by simp)).1, (h₃.locked new.workspaceId (by simp)).1,
        (h₂.locked new.workspaceId (by simp)).1, hw₁]
    refine keeps_inserted hasks ?_ rfl
    refine made_of_free (hgrows.consistent hd₁) hw₄ hnpos hnle (Bool.eq_false_iff.mpr htaken) ?_ fun r hr => ?_
    · exact hgrows.snapshotIn (h₁.snapshotIn hsnapshot)
    · exact hgrows.revisionIn (h₁.revisionIn (hrevisions r hr))

/-- **A request** is in order. -/
theorem keeps_createTurn (hasks : r.call.asks = some (service, new)) (hr : r.made = d) (hd : Consistent d) :
    Keeps alone r (createTurn refresh service new >>= fun ref => .ret (.turn ref)) d [] := by
  subst hr
  unfold createTurn requireActor
  cases hactor : service.actorId with
  | none =>
    refine keeps_refused hasks fun hadm => ?_
    obtain ⟨_, _, hsome, _⟩ := hadm.owner
    rw [hactor] at hsome
    cases hsome
  | some actorId =>
    refine Server.InOrder.read (fun _ _ _ _ => written_eq)
      fun d₁ h₁ _ workspace hread => ?_
    obtain rfl : (d₁.workspaces.get? new.workspaceId).filter (fun w => w.ownerUserId = actorId) = workspace :=
      (answer_inj hread).1
    cases hworkspace : (d₁.workspaces.get? new.workspaceId).filter (fun w => w.ownerUserId = actorId) with
    | none =>
      refine keeps_refused hasks fun hadm => ?_
      obtain ⟨actorId', w, hsome, hw, howner⟩ := (h₁.admits hadm).owner
      rw [hactor] at hsome
      obtain rfl := Option.some.inj hsome
      rw [hw, Option.filter_some, if_pos (decide_eq_true howner)] at hworkspace
      cases hworkspace
    | some loaded =>
      obtain ⟨hloaded, _⟩ := Option.filter_eq_some_iff.mp hworkspace
      refine Server.InOrder.read (fun _ _ _ _ => written_eq)
        fun d₂ h₂ _ snapshot hread₂ => ?_
      obtain rfl : d₂.snapshots.get? new.evidenceSnapshotId = snapshot := (answer_inj hread₂).1
      have h₁₂ := h₁.trans h₂
      show Keeps alone r ((if (d₂.snapshots.get? new.evidenceSnapshotId).map ResearchEvidenceSnapshot.workspaceId ≠
        some new.workspaceId then Prog.raise (snapshotNotFound new.evidenceSnapshotId) else _) >>= _) d₂ []
      by_cases hsnapshot : (d₂.snapshots.get? new.evidenceSnapshotId).map ResearchEvidenceSnapshot.workspaceId =
          some new.workspaceId
      · rw [if_neg (not_not.mpr hsnapshot), Prog.bind_assoc]
        obtain ⟨snapshot, hget, hw⟩ := Option.map_eq_some_iff.mp hsnapshot
        refine keeps_checkRevisions hasks (fun hadm => (h₁₂.admits hadm).revisions) fun d₃ h₃ hrevisions => ?_
        refine Server.InOrder.op fun d₄ h₄ a₄ existing new₄ hhandle₄ => ?_
        have h₂₄ : Holds alone [] d₂ d₄ := h₃.trans h₄
        have hfind : handle (.getTurnByIdempotency new.workspaceId new.idempotencyKey) a₄ d₄ = some (existing, new₄) :=
          hhandle₄
        rw [handle] at hfind
        cases hexisting : d₄.turns.findBy (ResearchTurn.isUnder new.workspaceId new.idempotencyKey) with
        | some found =>
          rw [hexisting] at hfind
          obtain ⟨rfl, rfl⟩ := answer_inj hfind
          obtain ⟨id, turn⟩ := found
          obtain ⟨hturn, hunder⟩ := Dict.get?_of_findBy hexisting
          refine Server.InOrder.ret fun d₅ h₅ => ?_
          obtain ⟨status, hturn₅⟩ := h₅.turn id turn hturn
          unfold Ready
          rw [hasks]
          exact .inl ⟨rfl, id, _, turn.status, hturn₅, hunder, rfl⟩
        | none =>
          rw [hexisting] at hfind
          obtain ⟨rfl, rfl⟩ := answer_inj hfind
          have hd₁ := h₁.consistent hd
          obtain ⟨w, hw₄, _, hle⟩ := (h₂.toGrows.trans h₂₄.toGrows).workspace _ loaded hloaded
          refine keeps_insertNew hasks (h₂₄.consistent (h₂.consistent hd₁)) hw₄ (hd₁.numbered _ loaded hloaded).1
            hle ?_ (fun r hr => h₄.revisionIn (hrevisions r hr)) (Dict.findBy_eq_none_iff.mp hexisting)
          exact h₂₄.snapshotIn ⟨snapshot, hget, hw⟩
      · rw [if_pos hsnapshot]
        refine keeps_refused hasks fun hadm => hsnapshot ?_
        obtain ⟨snapshot, hget, hw⟩ := (h₁₂.admits hadm).snapshot
        rw [hget, Option.map_some, hw]

theorem keeps_change {c : Change} (hasks : r.call.asks = none) :
    Keeps alone r (.op (.change c) fun written => Prog.lift written >>= fun _ => .ret .done) d [] := by
  refine Server.InOrder.op fun d₁ _ a written new₁ hhandle => ?_
  have hwrite : (if c.admitted d₁ = true then some (.ok (), [.change c]) else some (.error .integrityError, [])) =
      some (written, new₁) := hhandle
  by_cases hc : c.admitted d₁ = true
  · rw [if_pos hc] at hwrite
    obtain ⟨rfl, rfl⟩ := answer_inj hwrite
    refine Server.InOrder.ret fun d₂ h₂ => ?_
    unfold Ready
    rw [hasks]
    exact ⟨c, rfl, h₂.admitted c List.mem_cons_self hc⟩
  · rw [if_neg hc] at hwrite
    obtain ⟨rfl, rfl⟩ := answer_inj hwrite
    intro x _ service new hsome
    rw [hasks] at hsome
    cases hsome

/-- **Every request is in order**, where the tables are consistent. -/
theorem keeps_prog (r : Request) (hr : r.made = d) (hd : Consistent d) :
    Keeps alone r (r.call.prog refresh) d [] := by
  obtain ⟨call, made⟩ := r
  cases call with
  | createAnalysisTurn service command | createSynthesisTurn service command => exact keeps_createTurn rfl hr hd
  | change c => exact keeps_change rfl

end Programs

/-! ## Runs -/

/-- While a request is open that has missed its key, nobody else commits a turn under it. -/
def Unrivalled (p : System) : Action → Prop
  | .commit i => ∀ s id row, p.sessions[i]? = some s → .insertTurn id row ∈ s.writes → ∀ j t, j ≠ i →
      p.sessions[j]? = some t → .missed row.workspaceId row.idempotencyKey ∉ t.writes
  | _ => True

/-- Sessions in order over consistent tables. -/
structure Sound (alone : Prop) (p : System) : Prop where
  sessions : Server.Sound engine (Holds alone) (Ready alone) p
  consistent : Consistent p.committed

theorem consistent_empty : Consistent {} where
  numbered _ _ h := by cases h
  housed _ _ h := by cases h
  distinct _ _ _ _ h := by cases h
  snapshot _ _ h := by cases h
  context _ h := by cases h

theorem sound_start (alone : Prop) : Sound alone start where
  sessions := ⟨fun _ _ h => (by cases h), fun _ _ _ _ _ h => (by cases h)⟩
  consistent := consistent_empty

/-- **One step** keeps every request in order and the tables consistent. -/
theorem Sound.step {refresh : Bool} {p p' : System} {act : Action} (hp : Sound alone p)
    (halone : alone → Unrivalled p act) (h : step refresh p act = some p') : Sound alone p' where
  sessions := by
    refine hp.sessions.step_of_others conflict_comm (Holds.refl alone) (fun _ _ _ _ => Holds.trans) ?_ ?_ h
    · intro r hact
      cases act with
      | call c =>
        obtain rfl := Server.Action.call.inj hact
        exact keeps_prog _ rfl hp.consistent
      | step i a => cases hact
      | commit i => cases hact
      | abort i => cases hact
    · intro i r ws reply hact hi hready j s hji hj hapart
      cases act with
      | commit i' =>
        obtain rfl := Server.Action.commit.inj hact
        exact holds_view hready hapart fun ha id row hrow => halone ha _ id row hi hrow j s hji hj
      | call c => cases hact
      | step i a => cases hact
      | abort i => cases hact
  consistent := by
    cases act with
    | commit i =>
      obtain ⟨r, ws, reply, _, hready, hcommitted⟩ := hp.sessions.commit (Holds.refl alone) h
      rw [hcommitted]
      exact (grows_view hready).consistent hp.consistent
    | call c | step i a | abort i =>
      have hsame : p'.committed = p.committed := Server.committed_step h fun _ hact => by cases hact
      exact hsame ▸ hp.consistent

/-! ## Result -/

/-- The turns of a workspace. -/
def turnsOf (d : Database) (workspaceId : Uuid) : List (Uuid × ResearchTurn) :=
  d.turns.entries.filter (fun e => e.2.workspaceId = workspaceId)

theorem nodup_turnsOf {α : Type} {f : ResearchTurn → α} {w : Uuid} (hf : ∀ id t id' t', d.turns.get? id = some t →
    d.turns.get? id' = some t' → t.workspaceId = t'.workspaceId → f t = f t' → id = id') :
    ((turnsOf d w).map (fun e => f e.2)).Nodup := by
  have hnodup : (turnsOf d w).Nodup := d.turns.nodup.of_map.filter _
  refine (List.nodup_map_iff_inj_on hnodup).mpr fun e he e' he' heq => ?_
  obtain ⟨hmem, hw⟩ := List.mem_filter.mp he
  obtain ⟨hmem', hw'⟩ := List.mem_filter.mp he'
  have hget := Dict.get?_eq_some_iff.mpr hmem
  have hget' := Dict.get?_eq_some_iff.mpr hmem'
  have hid := hf e.1 e.2 e'.1 e'.2 hget hget' ((of_decide_eq_true hw).trans (of_decide_eq_true hw').symm) heq
  rw [hid, hget'] at hget
  exact Prod.ext hid (Option.some.inj hget).symm

/-- **Numbers**: the turns of a workspace have the numbers from one on. -/
theorem Consistent.numbers (hd : Consistent d) (w : Uuid) :
    ∃ n, ((turnsOf d w).map (fun e => e.2.turnNumber)).Perm (List.range' 1 n) := by
  cases hw : d.workspaces.get? w with
  | none =>
    refine ⟨0, ?_⟩
    have hnone : turnsOf d w = [] := by
      refine List.filter_eq_nil_iff.mpr fun e he htw => ?_
      have hsome := hd.housed e.1 e.2 (Dict.get?_eq_some_iff.mpr he)
      rw [of_decide_eq_true htw, hw] at hsome
      cases hsome
    rw [hnone]
    exact .refl _
  | some row =>
    obtain ⟨hpos, hnumbers⟩ := hd.numbered w row hw
    refine ⟨row.nextTurnNumber - 1, (List.perm_ext_iff_of_nodup ?_ List.nodup_range').mpr fun m => ?_⟩
    · exact nodup_turnsOf fun id t id' t' ht ht' hsame hn => hd.distinct id t id' t' ht ht' hsame (.inl hn)
    · have hmem : m ∈ (turnsOf d w).map (fun e => e.2.turnNumber) ↔
          ∃ id t, d.turns.get? id = some t ∧ t.workspaceId = w ∧ t.turnNumber = m := by
        rw [List.mem_map]
        constructor
        · rintro ⟨e, he, rfl⟩
          obtain ⟨hmem, hw⟩ := List.mem_filter.mp he
          exact ⟨e.1, e.2, Dict.get?_eq_some_iff.mpr hmem, of_decide_eq_true hw, rfl⟩
        · rintro ⟨id, t, ht, htw, rfl⟩
          exact ⟨(id, t), List.mem_filter.mpr ⟨Dict.get?_eq_some_iff.mp ht, decide_eq_true htw⟩, rfl⟩
      rw [hmem, hnumbers, List.mem_range'_1]
      omega

/-- What holds in every state: the turns of a workspace have the numbers from one on and keys of their own, a request like the one
a turn was made for is admitted, and what a request returns is the turn under its key. -/
structure Numbered (p : System) : Prop where
  numbers : ∀ w, ∃ n, ((turnsOf p.committed w).map (fun e => e.2.turnNumber)).Perm (List.range' 1 n)
  keys : ∀ w, ((turnsOf p.committed w).map (fun e => e.2.idempotencyKey)).Nodup
  repeats : ∀ (service : Service) (new : NewTurn) id t, p.committed.turns.get? id = some t →
    t.isUnder new.workspaceId new.idempotencyKey = true →
    (∃ actorId w, service.actorId = some actorId ∧ p.committed.workspaces.get? new.workspaceId = some w ∧
      w.ownerUserId = actorId) → new.evidenceSnapshotId = t.evidenceSnapshotId →
    (∀ r ∈ new.revisionIds, ∃ c ∈ p.committed.contexts, c.turnId = id ∧ c.conclusionRevisionId = r) →
    Admits service new p.committed
  returned : ∀ (i : Nat) (r : Request) (ws : List Write) reply service (new : NewTurn), p.sessions[i]? = some ⟨r, ws, some (.ret reply)⟩ →
    r.call.asks = some (service, new) → ∃ id t status, (engine.view ws p.committed).turns.get? id = some t ∧
      t.isUnder new.workspaceId new.idempotencyKey = true ∧
      reply = .turn (ResearchTurn.ref id { t with status := status })

/-- A request that comes to its end when there is a turn under its key returns that turn and has written nothing, if it was
admitted when it was made. -/
def Replays (p : System) : Prop :=
  ∀ (i : Nat) (r : Request) (ws : List Write) (q : M Reply) service (new : NewTurn) id t,
    p.sessions[i]? = some ⟨r, ws, some q⟩ → r.call.asks = some (service, new) →
    Admits service new r.made → p.committed.turns.get? id = some t →
    t.isUnder new.workspaceId new.idempotencyKey = true →
    (∀ e, q ≠ .raise e) ∧ ∀ reply, q = .ret reply →
      ws = [] ∧ ∃ status, reply = .turn (ResearchTurn.ref id { t with status := status })

theorem isUnder_iff {t : ResearchTurn} {w : Uuid} {key : String} :
    t.isUnder w key = true ↔ t.workspaceId = w ∧ t.idempotencyKey = key := by
  unfold ResearchTurn.isUnder
  rw [Bool.and_eq_true, decide_eq_true_eq, decide_eq_true_eq]

variable {p : System}

theorem Sound.ready (hp : Sound alone p) {i : Nat} {r : Request} {ws : List Write} (out : Except Exn Reply)
    (hi : p.sessions[i]? = some ⟨r, ws, some (Prog.lift out)⟩) : Ready alone r out (p.committed, ws) := by
  have horder := hp.sessions.inOrder i _ hi _ rfl
  cases out with
  | ok reply | error e => exact horder _ (Server.relies_refl (Holds.refl alone) _)

theorem Sound.numbered (hp : Sound alone p) : Numbered p where
  numbers := hp.consistent.numbers
  keys w := nodup_turnsOf fun id t id' t' ht ht' hw hkey => hp.consistent.distinct id t id' t' ht ht' hw (.inr hkey)
  repeats service new id t ht hunder howner hsnapshot hcontext := by
    obtain ⟨hw, _⟩ := isUnder_iff.mp hunder
    refine ⟨howner, ?_, fun r hr => ?_⟩
    · rw [hsnapshot, ← hw]
      exact hp.consistent.snapshot id t ht
    · obtain ⟨c, hc, rfl, rfl⟩ := hcontext r hr
      obtain ⟨u, hu, hin⟩ := hp.consistent.context c hc
      rw [ht] at hu
      obtain rfl := Option.some.inj hu
      exact hw ▸ hin
  returned i r ws reply service new hi hasks := by
    have hready := hp.ready (.ok reply) hi
    unfold Ready at hready
    rw [hasks] at hready
    rcases hready with ⟨hws, id, t, status, ht, hunder, hreply⟩ | ⟨actorId, id, n, hws, hreply, hmade⟩
    · obtain rfl : ws = [] := hws
      exact ⟨id, t, status, ht, hunder, hreply⟩
    · obtain rfl : ws = creation new actorId id n := hws
      refine ⟨id, new.row n, .questionDraft, ?_, isUnder_iff.mpr ⟨rfl, rfl⟩, hreply⟩
      exact ((created_view new actorId id n _).turn_iff hmade).mpr (.inl ⟨rfl, rfl⟩)

theorem Sound.replays (hp : Sound True p) : Replays p := by
  intro i r ws q service new id t hi hasks hadmits ht hunder
  refine ⟨?_, ?_⟩
  · rintro e rfl
    have hready := hp.ready (.error e) hi
    have hnone := (hready service new hasks hadmits).2 trivial id t ht
    rw [hunder] at hnone
    cases hnone
  · rintro reply rfl
    have hready := hp.ready (.ok reply) hi
    unfold Ready at hready
    rw [hasks] at hready
    rcases hready with ⟨hws, id', t', status, ht', hunder', hreply⟩ | ⟨actorId, id', n, _, _, hmade⟩
    · obtain ⟨hw, hkey⟩ := isUnder_iff.mp hunder
      obtain ⟨hw', hkey'⟩ := isUnder_iff.mp hunder'
      obtain rfl := hp.consistent.distinct id t id' t' ht ht' (hw.trans hw'.symm) (.inr (hkey.trans hkey'.symm))
      rw [ht] at ht'
      obtain rfl := Option.some.inj ht'
      exact ⟨hws, status, hreply⟩
    · have hnone := hmade.free id t ht
      rw [hunder] at hnone
      cases hnone

theorem sound_run {refresh : Bool} {ts : List (Runs.Transition System Action)} {p' : System}
    (hr : Runs.Run (step refresh) p ts p') (halone : alone → ∀ t ∈ ts, Unrivalled t.pre t.act) (hp : Sound alone p) :
    Sound alone p' := by
  induction hr with
  | nil => exact hp
  | cons h _ ih =>
    refine ih (fun ha t ht => halone ha t (List.mem_cons_of_mem _ ht)) ?_
    exact hp.step (fun ha => halone ha _ List.mem_cons_self) h

/-- **Turn creation**: in every run the turns of a workspace are numbered from one on, one for each key; and if no request is overtaken
by another under its key, what is requested again is answered with the turn there is. -/
theorem runs_idempotent {refresh : Bool} {ts : List (Runs.Transition System Action)} {p : System}
    (hr : Runs.Run (step refresh) start ts p) :
    Numbered p ∧ ((∀ t ∈ ts, Unrivalled t.pre t.act) → Replays p) := by
  constructor
  · exact (sound_run hr (fun h => h.elim) (sound_start False)).numbered
  · intro halone
    exact (sound_run hr (fun _ => halone) (sound_start True)).replays

/-- A question. -/
def question : CreateTurnCommand where
  workspaceId := "w"
  questionText := "?"
  evidenceSnapshotId := "s"
  selectedConclusionRevisionIds := []
  idempotencyKey := "k"
  asks := by decide
  few := by decide
  distinct := List.nodup_nil
  key := by decide

/-- A workspace with a snapshot. -/
def furnished : List Action :=
  [.call (.change (.insertWorkspace "w" "u")), .step 0 "", .commit 0,
   .call (.change (.insertSnapshot "s" { workspaceId := "w" })), .step 1 "", .commit 1]

/-- The question is asked, and asked again when it has been answered. -/
def repeated : List Action :=
  furnished ++ [.call (.createAnalysisTurn ⟨some "u"⟩ question), .step 2 "", .step 2 "", .step 2 "", .step 2 "", .step 2 "",
    .step 2 "t", .step 2 "", .step 2 "", .commit 2, .call (.createAnalysisTurn ⟨some "u"⟩ question), .step 3 "", .step 3 "",
    .step 3 ""]

/-- The question is asked twice at once. -/
def rivals : List Action :=
  furnished ++ [.call (.createAnalysisTurn ⟨some "u"⟩ question), .call (.createAnalysisTurn ⟨some "u"⟩ question),
    .step 2 "", .step 2 "", .step 2 "", .step 3 "", .step 3 "", .step 3 "", .step 2 "", .step 2 "", .step 2 "t", .step 2 "",
    .step 2 "", .commit 2, .step 3 "", .step 3 "", .step 3 "t'", .step 3 ""]

/-- Nobody else has written anything when a transaction is committed. -/
def idle (p : System) : Action → Bool
  | .commit i => p.sessions.zipIdx.all (fun s => s.1.writes.isEmpty || s.2 == i)
  | _ => true

theorem unrivalled_of_idle {act : Action} (h : idle p act = true) : Unrivalled p act := by
  cases act with
  | commit i =>
    intro s id row _ _ j t hj ht
    rcases Bool.or_eq_true_iff.mp (List.all_eq_true.mp h (t, j) (List.mem_zipIdx_iff_getElem?.mpr ht)) with hnone | heq
    · rw [List.isEmpty_iff.mp hnone]
      exact List.not_mem_nil
    · exact absurd (beq_iff_eq.mp heq) hj
  | call c | step i a | abort i => exact trivial

theorem runs_idempotent_repeated :
    (Runs.play (step true) start repeated).length = repeated.length ∧
      Numbered (Runs.final start (Runs.play (step true) start repeated)) ∧
      Replays (Runs.final start (Runs.play (step true) start repeated)) := by
  have hidle : ∀ t ∈ Runs.play (step true) start repeated, idle t.pre t.act = true := by decide +kernel
  obtain ⟨hnumbered, hreplays⟩ := runs_idempotent (Runs.play_run start repeated)
  exact ⟨by decide +kernel, hnumbered, hreplays fun t ht => unrivalled_of_idle (hidle t ht)⟩

/-- The program of a session has raised. -/
def raised : Option (M Reply) → Bool
  | some (.raise _) => true
  | _ => false

/-- The question, asked where the workspace and the snapshot are. -/
def Request.isQuestion (r : Request) : Bool :=
  r.call.asks.map (fun x => (x.1.actorId, x.2.workspaceId, x.2.evidenceSnapshotId, x.2.revisionIds, x.2.idempotencyKey)) =
      some (some "u", "w", "s", [], "k") &&
    (r.made.workspaces.get? "w").map ResearchWorkspace.ownerUserId = some "u" &&
    (r.made.snapshots.get? "s").map ResearchEvidenceSnapshot.workspaceId = some "w"

/-- **A request that is made while the first one under its key is open** ends in an error of the database, although there is a turn
then. -/
theorem not_replays_rivals : ¬ Replays (Runs.final start (Runs.play (step true) start rivals)) := by
  have hlast : ∃ s ∈ (Runs.final start (Runs.play (step true) start rivals)).sessions,
      raised s.rest = true ∧ s.call.isQuestion = true := by decide +kernel
  have hturn : ((Runs.final start (Runs.play (step true) start rivals)).committed.turns.get? "t").map
      (ResearchTurn.isUnder "w" "k") = some true := by decide +kernel
  generalize Runs.final start (Runs.play (step true) start rivals) = p at hlast hturn
  intro hreplays
  obtain ⟨⟨r, ws, rest⟩, hs, hraised, hquestion⟩ := hlast
  obtain ⟨t, ht, hunder⟩ := Option.map_eq_some_iff.mp hturn
  obtain ⟨i, hi⟩ := List.mem_iff_getElem?.mp hs
  simp only [Request.isQuestion, Bool.and_eq_true, decide_eq_true_eq] at hquestion
  obtain ⟨⟨hasks, howner⟩, hsnapshot⟩ := hquestion
  obtain ⟨⟨service, new⟩, hnew, hfields⟩ := Option.map_eq_some_iff.mp hasks
  simp only [Prod.mk.injEq] at hfields
  obtain ⟨hactor, hw, hsnap, hrevisions, hkey⟩ := hfields
  obtain ⟨w, hgetw, hwowner⟩ := Option.map_eq_some_iff.mp howner
  obtain ⟨s, hgets, hsw⟩ := Option.map_eq_some_iff.mp hsnapshot
  have hadmits : Admits service new r.made := by
    refine ⟨⟨"u", w, hactor, hw ▸ hgetw, hwowner⟩, ?_, fun id hid => ?_⟩
    · rw [hw, hsnap]
      exact ⟨s, hgets, hsw⟩
    · rw [hrevisions] at hid
      exact absurd hid List.not_mem_nil
  unfold raised at hraised
  split at hraised
  · next e heq =>
      obtain rfl : rest = some (.raise e) := heq
      have hunder' : t.isUnder new.workspaceId new.idempotencyKey = true := by
        rw [hw, hkey]
        exact hunder
      exact (hreplays i r ws (.raise e) service new "t" t hi hnew hadmits ht hunder').1 e rfl
  · cases hraised

end Irip.Timeline
