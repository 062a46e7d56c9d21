import Irip.Timeline.Service

/-!
# `Timeline.Commits` — what a request for a turn relies on and commits

A transaction that inserts a turn has locked its workspace, so that numbers are given out one after another.
-/

namespace Irip.Timeline

open Research (TurnStatus)

/-! ## Tables -/

/-- A snapshot of a workspace. -/
def SnapshotIn (d : Database) (workspaceId snapshotId : Uuid) : Prop :=
  ∃ snapshot, d.snapshots.get? snapshotId = some snapshot ∧ snapshot.workspaceId = workspaceId

/-- A revision of a conclusion of a workspace. -/
def RevisionIn (d : Database) (workspaceId revisionId : Uuid) : Prop :=
  ∃ revision conclusion, d.revisions.get? revisionId = some revision ∧
    d.conclusions.get? revision.conclusionId = some conclusion ∧ conclusion.workspaceId = workspaceId

/-- No turn of a workspace is under a key. -/
def NoTurn (d : Database) (workspaceId : Uuid) (key : String) : Prop :=
  ∀ id t, d.turns.get? id = some t → t.isUnder workspaceId key = false

/-- The turns of a workspace have the numbers below its counter, one each, and keys of their own; what they refer to is there. -/
structure Consistent (d : Database) : Prop where
  numbered : ∀ w row, d.workspaces.get? w = some row → 1 ≤ row.nextTurnNumber ∧ ∀ n,
    (∃ id t, d.turns.get? id = some t ∧ t.workspaceId = w ∧ t.turnNumber = n) ↔ 1 ≤ n ∧ n < row.nextTurnNumber
  housed : ∀ id t, d.turns.get? id = some t → (d.workspaces.get? t.workspaceId).isSome = true
  distinct : ∀ id t id' t', d.turns.get? id = some t → d.turns.get? id' = some t' → t.workspaceId = t'.workspaceId →
    t.turnNumber = t'.turnNumber ∨ t.idempotencyKey = t'.idempotencyKey → id = id'
  snapshot : ∀ id t, d.turns.get? id = some t → SnapshotIn d t.workspaceId t.evidenceSnapshotId
  context : ∀ c ∈ d.contexts, ∃ t, d.turns.get? c.turnId = some t ∧ RevisionIn d t.workspaceId c.conclusionRevisionId

/-- What a request needs: its user owns the workspace, and what it selects is of the workspace. -/
structure Admits (service : Service) (new : NewTurn) (d : Database) : Prop where
  owner : ∃ actorId w, service.actorId = some actorId ∧ d.workspaces.get? new.workspaceId = some w ∧
    w.ownerUserId = actorId
  snapshot : SnapshotIn d new.workspaceId new.evidenceSnapshotId
  revisions : ∀ r ∈ new.revisionIds, RevisionIn d new.workspaceId r

/-! ## Rely -/

/-- What nobody takes back: rows stay, turns but for their status, and counters only grow. -/
structure Grows (x y : Database) : Prop where
  workspace : ∀ w row, x.workspaces.get? w = some row → ∃ row', y.workspaces.get? w = some row' ∧
    row'.ownerUserId = row.ownerUserId ∧ row.nextTurnNumber ≤ row'.nextTurnNumber
  snapshot : ∀ id row, x.snapshots.get? id = some row → y.snapshots.get? id = some row
  conclusion : ∀ id row, x.conclusions.get? id = some row → y.conclusions.get? id = some row
  revision : ∀ id row, x.revisions.get? id = some row → y.revisions.get? id = some row
  turn : ∀ id t, x.turns.get? id = some t → ∃ status, y.turns.get? id = some { t with status := status }
  consistent : Consistent x → Consistent y

theorem Grows.refl (x : Database) : Grows x x where
  workspace _ row h := ⟨row, h, rfl, Nat.le_refl _⟩
  snapshot _ _ h := h
  conclusion _ _ h := h
  revision _ _ h := h
  turn _ t h := ⟨t.status, h⟩
  consistent h := h

theorem Grows.trans {x y z : Database} (h : Grows x y) (h' : Grows y z) : Grows x z where
  workspace w row hrow := by
    obtain ⟨row', hrow', howner, hle⟩ := h.workspace w row hrow
    obtain ⟨row'', hrow'', howner', hle'⟩ := h'.workspace w row' hrow'
    exact ⟨row'', hrow'', howner'.trans howner, Nat.le_trans hle hle'⟩
  snapshot id row hrow := h'.snapshot id row (h.snapshot id row hrow)
  conclusion id row hrow := h'.conclusion id row (h.conclusion id row hrow)
  revision id row hrow := h'.revision id row (h.revision id row hrow)
  turn id t ht := by
    obtain ⟨_, ht'⟩ := h.turn id t ht
    obtain ⟨status, ht''⟩ := h'.turn id _ ht'
    exact ⟨status, ht''⟩
  consistent hx := h'.consistent (h.consistent hx)

theorem Grows.snapshotIn {x y : Database} (h : Grows x y) {w id : Uuid} (hin : SnapshotIn x w id) : SnapshotIn y w id := by
  obtain ⟨snapshot, hget, hw⟩ := hin
  exact ⟨snapshot, h.snapshot id snapshot hget, hw⟩

theorem Grows.revisionIn {x y : Database} (h : Grows x y) {w id : Uuid} (hin : RevisionIn x w id) : RevisionIn y w id := by
  obtain ⟨revision, conclusion, hrevision, hconclusion, hw⟩ := hin
  exact ⟨revision, conclusion, h.revision id revision hrevision, h.conclusion _ conclusion hconclusion, hw⟩

theorem Grows.admits {x y : Database} (h : Grows x y) {service : Service} {new : NewTurn} (hx : Admits service new x) :
    Admits service new y where
  owner := by
    obtain ⟨actorId, w, hactor, hget, howner⟩ := hx.owner
    obtain ⟨w', hget', howner', _⟩ := h.workspace _ w hget
    exact ⟨actorId, w', hactor, hget', howner'.trans howner⟩
  snapshot := h.snapshotIn hx.snapshot
  revisions := fun r hr => h.revisionIn (hx.revisions r hr)

/-- What a transaction that has written `ws` relies on: a workspace it has locked gets no turns, what it has inserted nobody
else inserts, and under a key it has missed, where it is alone, no turn appears. -/
structure Holds (alone : Prop) (ws : List Write) (x y : Database) : Prop extends Grows x y where
  locked : ∀ w, .lockWorkspace w ∈ ws → y.workspaces.get? w = x.workspaces.get? w ∧
    ∀ id t, y.turns.get? id = some t → t.workspaceId = w → (x.turns.get? id).isSome = true
  fresh : ∀ id row, .insertTurn id row ∈ ws → x.turns.get? id = none → y.turns.get? id = none
  admitted : ∀ c, .change c ∈ ws → c.admitted x = true → c.admitted y = true
  missed : alone → ∀ w key, .missed w key ∈ ws → NoTurn x w key → NoTurn y w key

variable {alone : Prop} {ws ws' : List Write} {x y z d : Database}

theorem Holds.refl (alone : Prop) (ws : List Write) (x : Database) : Holds alone ws x x where
  toGrows := .refl x
  locked _ _ := ⟨rfl, fun _ _ h _ => Option.isSome_iff_exists.mpr ⟨_, h⟩⟩
  fresh _ _ _ h := h
  admitted _ _ h := h
  missed _ _ _ _ h := h

theorem Holds.trans (h : Holds alone ws x y) (h' : Holds alone ws y z) : Holds alone ws x z where
  toGrows := h.toGrows.trans h'.toGrows
  locked w hw := by
    obtain ⟨hsame, hturns⟩ := h.locked w hw
    obtain ⟨hsame', hturns'⟩ := h'.locked w hw
    refine ⟨hsame'.trans hsame, fun id t ht htw => ?_⟩
    obtain ⟨u, hu⟩ := Option.isSome_iff_exists.mp (hturns' id t ht htw)
    obtain ⟨status, hu'⟩ := h'.turn id u hu
    rw [ht] at hu'
    obtain rfl := Option.some.inj hu'
    exact hturns id u hu htw
  fresh id row hid hx := h'.fresh id row hid (h.fresh id row hid hx)
  admitted c hc hx := h'.admitted c hc (h.admitted c hc hx)
  missed ha w key hmem hx := h'.missed ha w key hmem (h.missed ha w key hmem hx)

/-- A turn that can be committed: it has the number at which the counter stands, and the key is free. -/
structure Made (new : NewTurn) (n : Nat) (id : Uuid) (d : Database) : Prop where
  workspace : ∃ w, d.workspaces.get? new.workspaceId = some w ∧ w.nextTurnNumber = n
  fresh : d.turns.get? id = none
  free : NoTurn d new.workspaceId new.idempotencyKey
  snapshot : SnapshotIn d new.workspaceId new.evidenceSnapshotId
  revisions : ∀ r ∈ new.revisionIds, RevisionIn d new.workspaceId r

theorem Made.holds {new : NewTurn} {n : Nat} {id : Uuid} (hx : Made new n id x) (h : Holds alone ws x y)
    (hlock : .lockWorkspace new.workspaceId ∈ ws) (hinsert : .insertTurn id (new.row n) ∈ ws) : Made new n id y where
  workspace := by
    rw [(h.locked _ hlock).1]
    exact hx.workspace
  fresh := h.fresh id _ hinsert hx.fresh
  free := by
    intro id' t ht
    by_contra hunder
    have hunder : t.isUnder new.workspaceId new.idempotencyKey = true := by simpa using hunder
    have htw : t.workspaceId = new.workspaceId := by
      simp only [ResearchTurn.isUnder, Bool.and_eq_true, decide_eq_true_eq] at hunder
      exact hunder.1
    obtain ⟨u, hu⟩ := Option.isSome_iff_exists.mp ((h.locked _ hlock).2 id' t ht htw)
    obtain ⟨status, hu'⟩ := h.turn id' u hu
    rw [ht] at hu'
    obtain rfl := Option.some.inj hu'
    have hfree := hx.free id' u hu
    rw [show u.isUnder new.workspaceId new.idempotencyKey = true from hunder] at hfree
    cases hfree
  snapshot := h.snapshotIn hx.snapshot
  revisions := fun r hr => h.revisionIn (hx.revisions r hr)

/-! ## Commits -/

/-- What a transaction has written that has made a turn. -/
def creation (new : NewTurn) (actorId id : Uuid) (n : Nat) : List Write :=
  [.missed new.workspaceId new.idempotencyKey, .lockWorkspace new.workspaceId,
    .setNextTurnNumber new.workspaceId (n + 1), .insertTurn id (new.row n)] ++
  (if new.revisionIds = [] then [] else [.insertTurnContext (new.contexts id)]) ++ [.recordAudit (new.event actorId id n)]

/-- The tables when a turn has been made. -/
structure Created (new : NewTurn) (n : Nat) (id : Uuid) (d d' : Database) : Prop where
  workspaces : d'.workspaces = d.workspaces.modify new.workspaceId (fun w => { w with nextTurnNumber := n + 1 })
  snapshots : d'.snapshots = d.snapshots
  conclusions : d'.conclusions = d.conclusions
  revisions : d'.revisions = d.revisions
  turns : d'.turns = d.turns.set id (new.row n)
  contexts : d'.contexts = d.contexts ++ new.contexts id

theorem created_view (new : NewTurn) (actorId id : Uuid) (n : Nat) (d : Database) :
    Created new n id d (engine.view (creation new actorId id n) d) := by
  unfold creation
  by_cases hnone : new.revisionIds = []
  · rw [if_pos hnone]
    refine ⟨rfl, rfl, rfl, rfl, rfl, ?_⟩
    unfold NewTurn.contexts
    rw [hnone]
    exact (List.append_nil _).symm
  · rw [if_neg hnone]
    exact ⟨rfl, rfl, rfl, rfl, rfl, rfl⟩

variable {new : NewTurn} {n : Nat} {id : Uuid} {d' : Database}

variable {t : ResearchTurn} {c : Change}

theorem Created.turn_iff (h : Created new n id d d') (hmade : Made new n id d) {id' : Uuid} :
    d'.turns.get? id' = some t ↔ (id' = id ∧ t = new.row n) ∨ d.turns.get? id' = some t := by
  rw [h.turns, Dict.get?_set]
  by_cases hid : id' = id
  · subst hid
    rw [if_pos rfl, hmade.fresh]
    simp [eq_comm]
  · simp [hid]

theorem Created.workspace_iff (h : Created new n id d d') {w : Uuid} {row' : ResearchWorkspace} :
    d'.workspaces.get? w = some row' ↔ ∃ row, d.workspaces.get? w = some row ∧
      row' = if w = new.workspaceId then { row with nextTurnNumber := n + 1 } else row := by
  rw [h.workspaces, Dict.get?_modify]
  by_cases hw : w = new.workspaceId
  · subst hw
    simp [eq_comm]
  · simp [hw]

theorem Created.snapshotIn (h : Created new n id d d') {w s : Uuid} (hin : SnapshotIn d w s) : SnapshotIn d' w s := by
  unfold SnapshotIn
  rw [h.snapshots]
  exact hin

theorem Created.revisionIn (h : Created new n id d d') {w r : Uuid} (hin : RevisionIn d w r) : RevisionIn d' w r := by
  unfold RevisionIn
  rw [h.revisions, h.conclusions]
  exact hin

theorem Created.consistent (h : Created new n id d d') (hmade : Made new n id d) (hd : Consistent d) : Consistent d' where
  numbered := by
    intro w row' hrow'
    obtain ⟨row, hrow, rfl⟩ := h.workspace_iff.mp hrow'
    obtain ⟨hpos, hnumbers⟩ := hd.numbered w row hrow
    have hturns : ∀ m, (∃ id' t, d'.turns.get? id' = some t ∧ t.workspaceId = w ∧ t.turnNumber = m) ↔
        (w = new.workspaceId ∧ m = n) ∨ (1 ≤ m ∧ m < row.nextTurnNumber) := by
      intro m
      rw [← hnumbers m]
      constructor
      · rintro ⟨id', t, ht, rfl, rfl⟩
        rcases (h.turn_iff hmade).mp ht with ⟨_, rfl⟩ | ht
        · exact .inl ⟨rfl, rfl⟩
        · exact .inr ⟨id', t, ht, rfl, rfl⟩
      · rintro (⟨rfl, rfl⟩ | ⟨id', t, ht, htw, htn⟩)
        · exact ⟨id, new.row m, (h.turn_iff hmade).mpr (.inl ⟨rfl, rfl⟩), rfl, rfl⟩
        · exact ⟨id', t, (h.turn_iff hmade).mpr (.inr ht), htw, htn⟩
    by_cases hw : w = new.workspaceId
    · obtain ⟨row₀, hrow₀, rfl⟩ := hmade.workspace
      rw [← hw, hrow] at hrow₀
      obtain rfl := Option.some.inj hrow₀
      rw [if_pos hw]
      refine ⟨Nat.le_add_left 1 _, fun m => ?_⟩
      rw [hturns]
      dsimp only
      constructor
      · rintro (⟨_, rfl⟩ | ⟨hone, hlt⟩)
        · exact ⟨hpos, Nat.lt_succ_self _⟩
        · exact ⟨hone, Nat.lt_succ_of_lt hlt⟩
      · rintro ⟨hone, hlt⟩
        rcases Nat.lt_succ_iff_lt_or_eq.mp hlt with hlt | rfl
        · exact .inr ⟨hone, hlt⟩
        · exact .inl ⟨hw, rfl⟩
    · rw [if_neg hw]
      refine ⟨hpos, fun m => ?_⟩
      rw [hturns]
      exact or_iff_right fun heq => hw heq.1
  housed := by
    intro id' t ht
    have hold : (d.workspaces.get? t.workspaceId).isSome = true := by
      rcases (h.turn_iff hmade).mp ht with ⟨_, rfl⟩ | ht
      · obtain ⟨w, hw, _⟩ := hmade.workspace
        exact Option.isSome_iff_exists.mpr ⟨w, hw⟩
      · exact hd.housed id' t ht
    obtain ⟨row, hrow⟩ := Option.isSome_iff_exists.mp hold
    exact Option.isSome_iff_exists.mpr ⟨_, h.workspace_iff.mpr ⟨row, hrow, rfl⟩⟩
  distinct := by
    -- the new turn against an old one: its number is not below the counter, and its key is free
    have hnew : ∀ id' t, d.turns.get? id' = some t → t.workspaceId = new.workspaceId →
        ¬ (t.turnNumber = n ∨ t.idempotencyKey = new.idempotencyKey) := by
      rintro id' t ht htw (rfl | hkey)
      · obtain ⟨w, hw, hn⟩ := hmade.workspace
        have hlt := (((hd.numbered _ w hw).2 t.turnNumber).mp ⟨id', t, ht, htw, rfl⟩).2
        omega
      · have hfree := hmade.free id' t ht
        rw [ResearchTurn.isUnder, decide_eq_true htw, decide_eq_true hkey] at hfree
        cases hfree
    intro id₁ t₁ id₂ t₂ ht₁ ht₂ hw hsame
    rcases (h.turn_iff hmade).mp ht₁ with ⟨rfl, rfl⟩ | ht₁
    · rcases (h.turn_iff hmade).mp ht₂ with ⟨rfl, rfl⟩ | ht₂
      · rfl
      · exact absurd (hsame.imp Eq.symm Eq.symm) (hnew id₂ t₂ ht₂ hw.symm)
    · rcases (h.turn_iff hmade).mp ht₂ with ⟨rfl, rfl⟩ | ht₂
      · exact absurd hsame (hnew id₁ t₁ ht₁ hw)
      · exact hd.distinct id₁ t₁ id₂ t₂ ht₁ ht₂ hw hsame
  snapshot := by
    intro id' t ht
    rcases (h.turn_iff hmade).mp ht with ⟨_, rfl⟩ | ht
    · exact h.snapshotIn hmade.snapshot
    · exact h.snapshotIn (hd.snapshot id' t ht)
  context := by
    intro c hc
    rw [h.contexts] at hc
    rcases List.mem_append.mp hc with hc | hc
    · obtain ⟨t, ht, hin⟩ := hd.context c hc
      exact ⟨t, (h.turn_iff hmade).mpr (.inr ht), h.revisionIn hin⟩
    · obtain ⟨r, hr, rfl⟩ := List.mem_map.mp hc
      refine ⟨new.row n, (h.turn_iff hmade).mpr (.inl ⟨rfl, rfl⟩), h.revisionIn (hmade.revisions r.1 ?_)⟩
      exact (List.mem_zipIdx' hr).2 ▸ List.getElem_mem _

theorem Created.grows (h : Created new n id d d') (hmade : Made new n id d) : Grows d d' where
  workspace := by
    intro w row hrow
    refine ⟨_, h.workspace_iff.mpr ⟨row, hrow, rfl⟩, ?_⟩
    by_cases hw : w = new.workspaceId
    · obtain ⟨row₀, hrow₀, rfl⟩ := hmade.workspace
      rw [← hw, hrow] at hrow₀
      obtain rfl := Option.some.inj hrow₀
      rw [if_pos hw]
      exact ⟨rfl, Nat.le_succ _⟩
    · rw [if_neg hw]
      exact ⟨rfl, Nat.le_refl _⟩
  snapshot _ _ hget := h.snapshots ▸ hget
  conclusion _ _ hget := h.conclusions ▸ hget
  revision _ _ hget := h.revisions ▸ hget
  turn _ t ht := ⟨t.status, (h.turn_iff hmade).mpr (.inr ht)⟩
  consistent := h.consistent hmade

theorem get?_set_of_some {α : Type} {rows : Dict Uuid α} {k k' : Uuid} {a b : α} (hfresh : rows.get? k = none)
    (h : rows.get? k' = some b) : (rows.set k a).get? k' = some b := by
  rw [Dict.get?_set, if_neg, h]
  rintro rfl
  rw [hfresh] at h
  cases h

theorem turn_change_iff (c : Change) (d : Database) {id : Uuid} : (c.apply d).turns.get? id = some t ↔
    ∃ u, d.turns.get? id = some u ∧ t = match c with
      | .setTurnStatus id' status => if id = id' then { u with status := status } else u
      | _ => u := by
  cases c with
  | setTurnStatus id' status =>
    show (d.turns.modify id' (fun t => { t with status := status })).get? id = some t ↔ _
    rw [Dict.get?_modify]
    by_cases hid : id = id'
    · subst hid
      simp [eq_comm]
    · simp [hid]
  | _ =>
    refine ⟨fun h => ⟨t, h, rfl⟩, ?_⟩
    rintro ⟨_, hu, heq⟩
    exact heq ▸ hu

theorem turn_of_change {id : Uuid} (h : (c.apply d).turns.get? id = some t) :
    ∃ status, d.turns.get? id = some { t with status := status } := by
  obtain ⟨u, hu, rfl⟩ := (turn_change_iff c d).mp h
  refine ⟨u.status, ?_⟩
  cases c with
  | setTurnStatus id' status =>
    dsimp only
    split <;> exact hu
  | _ => exact hu

theorem exists_turn_change (c : Change) {id : Uuid} (h : d.turns.get? id = some t) :
    ∃ status, (c.apply d).turns.get? id = some { t with status := status } := by
  have hturn := (turn_change_iff c d).mpr ⟨t, h, rfl⟩
  cases c with
  | setTurnStatus id' status =>
    dsimp only at hturn
    split at hturn
    · exact ⟨status, hturn⟩
    · exact ⟨t.status, hturn⟩
  | _ => exact ⟨t.status, hturn⟩

theorem snapshotIn_change (hc : c.admitted d = true) {w s : Uuid} (h : SnapshotIn d w s) :
    SnapshotIn (c.apply d) w s := by
  obtain ⟨snapshot, hget, hw⟩ := h
  refine ⟨snapshot, ?_, hw⟩
  cases c with
  | insertSnapshot id row => exact get?_set_of_some (Option.isNone_iff_eq_none.mp hc) hget
  | _ => exact hget

theorem revisionIn_change (hc : c.admitted d = true) {w r : Uuid} (h : RevisionIn d w r) :
    RevisionIn (c.apply d) w r := by
  obtain ⟨revision, conclusion, hrevision, hconclusion, hw⟩ := h
  refine ⟨revision, conclusion, ?_, ?_, hw⟩
  · cases c with
    | insertRevision id row => exact get?_set_of_some (Option.isNone_iff_eq_none.mp hc) hrevision
    | _ => exact hrevision
  · cases c with
    | insertConclusion id row => exact get?_set_of_some (Option.isNone_iff_eq_none.mp hc) hconclusion
    | _ => exact hconclusion

theorem workspace_change {w : Uuid} {row : ResearchWorkspace}
    (h : (c.apply d).workspaces.get? w = some row) (hc : c.admitted d = true) :
    d.workspaces.get? w = some row ∨ (d.workspaces.get? w = none ∧ row.nextTurnNumber = 1) := by
  cases c with
  | insertWorkspace id owner =>
    have hget : (d.workspaces.set id { ownerUserId := owner }).get? w = some row := h
    rw [Dict.get?_set] at hget
    split at hget
    · next heq =>
        subst heq
        obtain rfl := Option.some.inj hget
        exact .inr ⟨Option.isNone_iff_eq_none.mp hc, rfl⟩
    · exact .inl hget
  | _ => exact .inl h

theorem exists_workspace_change (hc : c.admitted d = true) {w : Uuid} {row : ResearchWorkspace}
    (h : d.workspaces.get? w = some row) : (c.apply d).workspaces.get? w = some row := by
  cases c with
  | insertWorkspace id owner => exact get?_set_of_some (Option.isNone_iff_eq_none.mp hc) h
  | _ => exact h

theorem consistent_change (hc : c.admitted d = true) (hd : Consistent d) : Consistent (c.apply d) where
  numbered := by
    intro w row hrow
    have hturns : ∀ m, (∃ id t, (c.apply d).turns.get? id = some t ∧ t.workspaceId = w ∧ t.turnNumber = m) ↔
        ∃ id t, d.turns.get? id = some t ∧ t.workspaceId = w ∧ t.turnNumber = m := by
      intro m
      constructor
      · rintro ⟨id, t, ht, rfl, rfl⟩
        obtain ⟨status, hu⟩ := turn_of_change ht
        exact ⟨id, _, hu, rfl, rfl⟩
      · rintro ⟨id, t, ht, rfl, rfl⟩
        obtain ⟨status, hu⟩ := exists_turn_change c ht
        exact ⟨id, _, hu, rfl, rfl⟩
    rcases workspace_change hrow hc with hold | ⟨hnone, hone⟩
    · obtain ⟨hpos, hnumbers⟩ := hd.numbered w row hold
      exact ⟨hpos, fun m => (hturns m).trans (hnumbers m)⟩
    · rw [hone]
      refine ⟨Nat.le_refl 1, fun m => (hturns m).trans (iff_of_false ?_ (fun h => Nat.not_lt.mpr h.1 h.2))⟩
      rintro ⟨id, t, ht, rfl, _⟩
      have hsome := hd.housed id t ht
      rw [hnone] at hsome
      cases hsome
  housed := by
    intro id t ht
    obtain ⟨status, hu⟩ := turn_of_change ht
    obtain ⟨row, hrow⟩ := Option.isSome_iff_exists.mp (hd.housed id _ hu)
    exact Option.isSome_iff_exists.mpr ⟨row, exists_workspace_change hc hrow⟩
  distinct := by
    intro id₁ t₁ id₂ t₂ ht₁ ht₂ hw hsame
    obtain ⟨status₁, hu₁⟩ := turn_of_change ht₁
    obtain ⟨status₂, hu₂⟩ := turn_of_change ht₂
    exact hd.distinct id₁ _ id₂ _ hu₁ hu₂ hw hsame
  snapshot := by
    intro id t ht
    obtain ⟨status, hu⟩ := turn_of_change ht
    exact snapshotIn_change hc (hd.snapshot id { t with status := status } hu)
  context := by
    intro x hx
    have hx : x ∈ d.contexts := by
      cases c <;> exact hx
    obtain ⟨t, ht, hin⟩ := hd.context x hx
    obtain ⟨status, hu⟩ := exists_turn_change c ht
    exact ⟨_, hu, revisionIn_change hc hin⟩

theorem grows_change (hc : c.admitted d = true) : Grows d (c.apply d) where
  workspace _ row h := ⟨row, exists_workspace_change hc h, rfl, Nat.le_refl _⟩
  snapshot id row h := by
    cases c with
    | insertSnapshot id row => exact get?_set_of_some (Option.isNone_iff_eq_none.mp hc) h
    | _ => exact h
  conclusion id row h := by
    cases c with
    | insertConclusion id row => exact get?_set_of_some (Option.isNone_iff_eq_none.mp hc) h
    | _ => exact h
  revision id row h := by
    cases c with
    | insertRevision id row => exact get?_set_of_some (Option.isNone_iff_eq_none.mp hc) h
    | _ => exact h
  turn _ _ h := exists_turn_change c h
  consistent := consistent_change hc

theorem not_mem_keys {w w' : Write} (h : conflict w w' = false) {k : RowKey} (hk : k ∈ w.keys) : k ∉ w'.keys := by
  intro hk'
  have hany := List.any_eq_false.mp h k hk
  exact hany (decide_eq_true hk')

theorem conflict_comm (w w' : Write) : conflict w w' = conflict w' w := by
  unfold conflict
  rw [Bool.eq_iff_iff, List.any_eq_true, List.any_eq_true]
  simp only [decide_eq_true_eq]
  exact ⟨fun ⟨k, hk, hk'⟩ => ⟨k, hk', hk⟩, fun ⟨k, hk, hk'⟩ => ⟨k, hk', hk⟩⟩

theorem isNone_set {α : Type} {rows : Dict Uuid α} {k k' : Uuid} {a : α} (hne : k' ≠ k) (h : (rows.get? k').isNone = true) :
    ((rows.set k a).get? k').isNone = true := by
  rw [Dict.get?_set, if_neg hne]
  exact h

theorem holds_change (hc : c.admitted d = true) (hapart : engine.Apart [.change c] ws') :
    Holds alone ws' d (c.apply d) := by
  have hfree : ∀ w' ∈ ws', c.key ∉ w'.keys := fun w' hw' =>
    not_mem_keys (hapart _ List.mem_cons_self w' hw') List.mem_cons_self
  refine ⟨grows_change hc, fun w hw => ⟨?_, fun id t ht _ => ?_⟩, fun id row _ hnone => ?_, fun c' hc' h => ?_,
    fun _ w key _ hnone id t ht => ?_⟩
  · have hkey := hfree _ hw
    cases c with
    | insertWorkspace id owner =>
      have hne : ¬ w = id := fun heq => hkey (heq ▸ List.mem_cons_self)
      show (d.workspaces.set id { ownerUserId := owner }).get? w = _
      rw [Dict.get?_set, if_neg hne]
    | _ => rfl
  · obtain ⟨status, hu⟩ := turn_of_change ht
    exact Option.isSome_iff_exists.mpr ⟨_, hu⟩
  · cases hget : (c.apply d).turns.get? id with
    | none => rfl
    | some t =>
      obtain ⟨status, hu⟩ := turn_of_change hget
      rw [hnone] at hu
      cases hu
  · have hkey := hfree _ hc'
    cases c' with
    | insertWorkspace id' owner' =>
      cases c with
      | insertWorkspace id owner =>
        exact isNone_set (fun heq => hkey (heq ▸ List.mem_cons_self)) h
      | _ => exact h
    | insertSnapshot id' row' =>
      cases c with
      | insertSnapshot id row =>
        exact isNone_set (fun heq => hkey (heq ▸ List.mem_cons_self)) h
      | _ => exact h
    | insertConclusion id' row' =>
      cases c with
      | insertConclusion id row =>
        exact isNone_set (fun heq => hkey (heq ▸ List.mem_cons_self)) h
      | _ => exact h
    | insertRevision id' row' =>
      cases c with
      | insertRevision id row =>
        exact isNone_set (fun heq => hkey (heq ▸ List.mem_cons_self)) h
      | _ => exact h
    | setTurnStatus id' status' => rfl
  · obtain ⟨status, hu⟩ := turn_of_change ht
    exact hnone id { t with status := status } hu

theorem holds_created {actorId : Uuid} (hmade : Made new n id d) (hapart : engine.Apart (creation new actorId id n) ws')
    (halone : alone → .missed new.workspaceId new.idempotencyKey ∉ ws') :
    Holds alone ws' d (engine.view (creation new actorId id n) d) := by
  have hcreated := created_view new actorId id n d
  generalize engine.view (creation new actorId id n) d = d' at hcreated
  have hlock : .lockWorkspace new.workspaceId ∈ creation new actorId id n := by
    simp [creation]
  have hinsert : .insertTurn id (new.row n) ∈ creation new actorId id n := by
    simp [creation]
  refine ⟨hcreated.grows hmade, fun w hw => ?_, fun id' row hrow hnone => ?_, fun c hc h => ?_,
    fun ha w key hmissed hnone id' t ht => ?_⟩
  · have hne : ¬ w = new.workspaceId := by
      rintro rfl
      exact not_mem_keys (hapart _ hlock _ hw) List.mem_cons_self List.mem_cons_self
    refine ⟨?_, fun id' t ht htw => ?_⟩
    · rw [hcreated.workspaces, Dict.get?_modify, if_neg hne]
    · rcases (hcreated.turn_iff hmade).mp ht with ⟨_, rfl⟩ | ht
      · exact absurd htw.symm hne
      · exact Option.isSome_iff_exists.mpr ⟨t, ht⟩
  · have hne : ¬ id' = id := by
      rintro rfl
      exact not_mem_keys (hapart _ hinsert _ hrow) List.mem_cons_self List.mem_cons_self
    rw [hcreated.turns, Dict.get?_set, if_neg hne]
    exact hnone
  · cases c with
    | insertWorkspace id' owner' =>
      show (d'.workspaces.get? id').isNone = true
      rw [hcreated.workspaces, Dict.get?_modify]
      have hnone : d.workspaces.get? id' = none := Option.isNone_iff_eq_none.mp h
      split
      · next heq =>
          obtain ⟨w, hw, _⟩ := hmade.workspace
          rw [heq, hw] at hnone
          cases hnone
      · exact h
    | insertSnapshot id' row' =>
      show (d'.snapshots.get? id').isNone = true
      rw [hcreated.snapshots]
      exact h
    | insertConclusion id' row' =>
      show (d'.conclusions.get? id').isNone = true
      rw [hcreated.conclusions]
      exact h
    | insertRevision id' row' =>
      show (d'.revisions.get? id').isNone = true
      rw [hcreated.revisions]
      exact h
    | setTurnStatus id' status' => rfl
  · rcases (hcreated.turn_iff hmade).mp ht with ⟨_, rfl⟩ | ht
    · by_contra hunder
      have hunder : (new.row n).isUnder w key = true := by simpa using hunder
      simp only [ResearchTurn.isUnder, Bool.and_eq_true, decide_eq_true_eq] at hunder
      obtain ⟨rfl, rfl⟩ := hunder
      exact halone ha hmissed
    · exact hnone id' t ht

/-! ## Postcondition -/

/-- What a request has established when it has come to its end. -/
def Ready (alone : Prop) (r : Request) : Except Exn Reply → Database × List Write → Prop
  | .ok reply, x => match r.call.asks with
    | none => ∃ c, x.2 = [.change c] ∧ c.admitted x.1 = true
    | some (_, new) =>
      (x.2 = [] ∧ ∃ id t status, x.1.turns.get? id = some t ∧ t.isUnder new.workspaceId new.idempotencyKey = true ∧
        reply = .turn (ResearchTurn.ref id { t with status := status })) ∨
      ∃ actorId id n, x.2 = creation new actorId id n ∧ reply = .turn ((new.row n).ref id) ∧ Made new n id x.1
  | .error _, x => ∀ service new, r.call.asks = some (service, new) → Admits service new r.made →
    .missed new.workspaceId new.idempotencyKey ∈ x.2 ∧ (alone → NoTurn x.1 new.workspaceId new.idempotencyKey)

theorem grows_view {r : Request} {reply : Reply} (h : Ready alone r (.ok reply) (d, ws)) : Grows d (engine.view ws d) := by
  unfold Ready at h
  dsimp only at h
  split at h
  · obtain ⟨c, rfl, hc⟩ := h
    exact grows_change hc
  · rcases h with ⟨rfl, _⟩ | ⟨actorId, id, n, rfl, _, hmade⟩
    · exact .refl d
    · exact (created_view _ actorId id n d).grows hmade

theorem holds_view {r : Request} {reply : Reply} (h : Ready alone r (.ok reply) (d, ws)) (hapart : engine.Apart ws ws')
    (halone : alone → ∀ id row, .insertTurn id row ∈ ws → .missed row.workspaceId row.idempotencyKey ∉ ws') :
    Holds alone ws' d (engine.view ws d) := by
  unfold Ready at h
  dsimp only at h
  split at h
  · obtain ⟨c, rfl, hc⟩ := h
    exact holds_change hc hapart
  · next new _ =>
      rcases h with ⟨rfl, _⟩ | ⟨actorId, id, n, rfl, _, hmade⟩
      · exact .refl alone ws' d
      · refine holds_created hmade hapart fun ha => halone ha id (new.row n) ?_
        simp [creation]

end Irip.Timeline
