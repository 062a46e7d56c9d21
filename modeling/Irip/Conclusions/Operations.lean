import Irip.Base.Txn
import Irip.Conclusions.Entities

/-!
# `Conclusions.Operations` — the statements of the conclusion service

Each operation is one SQL statement, or a new identifier. The turns, the candidates, the conclusions and their
revisions are the database.
-/

namespace Irip.Conclusions

/-! ## Database -/

/-- The tables of the service. -/
structure Database where
  turns : List ResearchTurn := []
  candidates : List ResearchConclusionCandidate := []
  conclusions : List ResearchConclusion := []
  revisions : List ResearchConclusionRevision := []

namespace Database

variable (d : Database)

/-- The row a table has under a primary key. -/
def turn? (id : Uuid) : Option ResearchTurn := d.turns.find? (fun t => t.id = id)

@[inherit_doc turn?]
def candidate? (id : Uuid) : Option ResearchConclusionCandidate := d.candidates.find? (fun c => c.id = id)

@[inherit_doc turn?]
def conclusion? (id : Uuid) : Option ResearchConclusion := d.conclusions.find? (fun c => c.id = id)

/-- The revisions of a conclusion, in the order in which they were inserted. -/
def revisionsOf (conclusionId : Uuid) : List ResearchConclusionRevision :=
  d.revisions.filter (fun r => r.conclusionId = conclusionId)

/-- The workspace of a turn. -/
def workspaceOf (turnId : Uuid) : Option Uuid := (d.turn? turnId).map ResearchTurn.workspaceId

/-- The workspaces of the conclusions that were saved from a candidate, one for each. -/
def savedFrom (candidateId : Uuid) : List Uuid :=
  (d.conclusions.filter (fun c => c.sourceCandidateId = some candidateId)).map ResearchConclusion.workspaceId

end Database

/-- `ORDER BY revision_number DESC LIMIT 1`. -/
def latest : List ResearchConclusionRevision → Option ResearchConclusionRevision
  | [] => none
  | r :: rs =>
    match latest rs with
    | none => some r
    | some s => if r.revisionNumber < s.revisionNumber then some s else some r

/-- What an UPDATE sets in a conclusion. -/
inductive ConclusionUpdate where
  | lock (version : Int)
  | archive (version : Int)
  | current (revisionId : Uuid)
  | archived

/-- The conclusion after an UPDATE. -/
def ConclusionUpdate.apply : ConclusionUpdate → ResearchConclusion → ResearchConclusion
  | .lock version, c => { c with lockVersion := version }
  | .archive version, c => { c with status := .archived, lockVersion := version }
  | .current revisionId, c => { c with currentRevisionId := some revisionId }
  | .archived, c => { c with status := .archived }

/-- The candidate after an UPDATE; a conclusion that was not given leaves the column as it was. -/
def ResearchConclusionCandidate.decided (c : ResearchConclusionCandidate) (status : CandidateStatus)
    (savedConclusionId : Option Uuid) : ResearchConclusionCandidate :=
  { c with status := status, savedConclusionId := savedConclusionId.or c.savedConclusionId }

/-- The effect of a statement on rows. -/
inductive Write where
  | insertTurn (row : ResearchTurn)
  | insertCandidate (row : ResearchConclusionCandidate)
  | insertConclusion (row : ResearchConclusion)
  | insertRevision (row : ResearchConclusionRevision)
  | updateCandidate (id : Uuid) (status : CandidateStatus) (savedConclusionId : Option Uuid)
  | updateConclusion (id : Uuid) (update : ConclusionUpdate)

/-- The database after a write. -/
def Write.apply : Write → Database → Database
  | .insertTurn row, d => { d with turns := d.turns ++ [row] }
  | .insertCandidate row, d => { d with candidates := d.candidates ++ [row] }
  | .insertConclusion row, d => { d with conclusions := d.conclusions ++ [row] }
  | .insertRevision row, d => { d with revisions := d.revisions ++ [row] }
  | .updateCandidate id status saved, d =>
    { d with candidates := d.candidates.map (fun c => if c.id = id then c.decided status saved else c) }
  | .updateConclusion id u, d =>
    { d with conclusions := d.conclusions.map (fun c => if c.id = id then u.apply c else c) }

/-! ## Operations -/

/-- A statement of the service. -/
inductive Op where
  | newId
  | getTurn (id : Uuid)
  | getCandidate (id : Uuid)
  | getConclusion (id : Uuid)
  | selectConclusionIn (id workspaceId : Uuid)
  | getLatestRevision (conclusionId : Uuid)
  | insertTurn (row : ResearchTurn)
  | insertCandidate (row : ResearchConclusionCandidate)
  | insertConclusion (row : ResearchConclusion)
  | insertRevision (row : ResearchConclusionRevision)
  | updateCandidateStatus (id : Uuid) (status : CandidateStatus) (savedConclusionId : Option Uuid)
  | setCurrentRevision (conclusionId revisionId : Uuid)
  | updateConclusionLock (id : Uuid) (expected : Int)
  | archiveConclusion (id : Uuid) (expected : Int)
  | flushArchived (id : Uuid)

/-- What a statement answers. -/
@[reducible] def Res : Op → Type
  | .newId => Uuid
  | .getTurn _ => Option ResearchTurn
  | .getCandidate _ => Option ResearchConclusionCandidate
  | .getConclusion _ => Option ResearchConclusion
  | .selectConclusionIn _ _ => Option ResearchConclusion
  | .getLatestRevision _ => Option ResearchConclusionRevision
  | .insertTurn _ => Except Exn Unit
  | .insertCandidate _ => Except Exn Unit
  | .insertConclusion _ => Except Exn Unit
  | .insertRevision _ => Except Exn Unit
  | .updateCandidateStatus _ _ _ => Unit
  | .setCurrentRevision _ _ => Unit
  | .updateConclusionLock _ _ => Bool
  | .archiveConclusion _ _ => Bool
  | .flushArchived _ => Unit

/-- What the surroundings contribute to an answer: the random source, whether a foreign key into a table of
another package resolves, and whether row level security shows a session without a tenant the row it asks
for. -/
structure Answer where
  id : Uuid := ""
  resolves : Bool := true
  visible : Bool := true

/-- An INSERT: refused when a constraint does not hold. -/
def insert (allowed : Bool) (w : Write) : Except Exn Unit × List Write :=
  if allowed then (.ok (), [w]) else (.error .integrityError, [])

/-- An UPDATE of a conclusion at a lock version: whether it finds the row, and what it writes. -/
def updateAt (d : Database) (id : Uuid) (expected : Int) (u : ConclusionUpdate) : Bool × List Write :=
  match d.conclusion? id with
  | some c => if c.lockVersion = expected then (true, [.updateConclusion id u]) else (false, [])
  | none => (false, [])

/-- The answer of a statement that sees the database `d`, and what it writes. -/
def handle : (o : Op) → Answer → Database → Option (Res o × List Write)
  | .newId, a, _ => some (a.id, [])
  | .getTurn id, _, d => some (d.turn? id, [])
  | .getCandidate id, _, d => some (d.candidate? id, [])
  | .getConclusion id, _, d => some (d.conclusion? id, [])
  | .selectConclusionIn id workspaceId, a, d =>
    some ((d.conclusion? id).filter (fun c => a.visible && c.workspaceId = workspaceId), [])
  | .getLatestRevision id, _, d => some (latest (d.revisionsOf id), [])
  | .insertTurn row, a, d =>
    some (insert (a.resolves && (d.turn? row.id).isNone) (.insertTurn row))
  | .insertCandidate row, a, d =>
    some (insert (a.resolves && (d.turn? row.turnId).isSome && (d.candidate? row.id).isNone
      && !d.candidates.any (fun c => c.extractionId = row.extractionId ∧ c.ordinal = row.ordinal))
      (.insertCandidate row))
  | .insertConclusion row, a, d =>
    some (insert (a.resolves && (d.conclusion? row.id).isNone) (.insertConclusion row))
  | .insertRevision row, a, d =>
    some (insert (a.resolves && (d.conclusion? row.conclusionId).isSome && !d.revisions.any (fun r => r.id = row.id)
      && !d.revisions.any (fun r => r.conclusionId = row.conclusionId ∧ r.revisionNumber = row.revisionNumber))
      (.insertRevision row))
  | .updateCandidateStatus id status saved, _, _ => some ((), [.updateCandidate id status saved])
  | .setCurrentRevision id revisionId, _, _ => some ((), [.updateConclusion id (.current revisionId)])
  | .updateConclusionLock id expected, _, d => some (updateAt d id expected (.lock (expected + 1)))
  | .archiveConclusion id expected, _, d => some (updateAt d id expected (.archive (expected + 1)))
  | .flushArchived id, _, _ => some ((), [.updateConclusion id .archived])

theorem insert_ok {allowed : Bool} {w : Write} {new : List Write} {u : Unit}
    (h : insert allowed w = (.ok u, new)) : allowed = true ∧ new = [w] := by
  cases allowed with
  | true => exact ⟨rfl, (Prod.mk.inj h).2.symm⟩
  | false => cases (Prod.mk.inj h).1

theorem updateAt_true {d : Database} {id : Uuid} {expected : Int} {u : ConclusionUpdate} {new : List Write}
    (h : updateAt d id expected u = (true, new)) :
    ∃ c, d.conclusion? id = some c ∧ c.lockVersion = expected ∧ new = [.updateConclusion id u] := by
  unfold updateAt at h
  split at h
  · next c hc =>
      split at h
      · next hlock => exact ⟨c, hc, hlock, (Prod.mk.inj h).2.symm⟩
      · cases (Prod.mk.inj h).1
  · cases (Prod.mk.inj h).1

/-! ## The engine -/

/-- A row, or a key of a unique index. -/
inductive RowKey where
  | turn (id : Uuid)
  | candidate (id : Uuid)
  | ordinal (extractionId : Uuid) (ordinal : Nat)
  | conclusion (id : Uuid)
  | revision (id : Uuid)
  | number (conclusionId : Uuid) (revisionNumber : Nat)
deriving DecidableEq

/-- The keys a write takes until its transaction ends. -/
def Write.keys : Write → List RowKey
  | .insertTurn row => [.turn row.id]
  | .insertCandidate row => [.candidate row.id, .ordinal row.extractionId row.ordinal]
  | .insertConclusion row => [.conclusion row.id]
  | .insertRevision row => [.revision row.id, .number row.conclusionId row.revisionNumber]
  | .updateCandidate id _ _ => [.candidate id]
  | .updateConclusion id _ => [.conclusion id]

/-- The keys a transaction has taken. -/
def taken (ws : List Write) : List RowKey := ws.flatMap Write.keys

/-- The tables under PostgreSQL's READ COMMITTED. -/
def engine : Engine Database Write Answer Op Res where
  apply := Write.apply
  conflict := fun w w' => w.keys.any (fun k => k ∈ w'.keys)
  handle := handle

theorem conflict_comm (w w' : Write) : engine.conflict w w' = engine.conflict w' w := by
  show w.keys.any (fun k => k ∈ w'.keys) = w'.keys.any (fun k => k ∈ w.keys)
  rw [Bool.eq_iff_iff]
  simp only [List.any_eq_true, decide_eq_true_eq]
  exact ⟨fun ⟨k, h, h'⟩ => ⟨k, h', h⟩, fun ⟨k, h, h'⟩ => ⟨k, h', h⟩⟩

@[simp] theorem mem_taken_append {ws ws' : List Write} {k : RowKey} :
    k ∈ taken (ws ++ ws') ↔ k ∈ taken ws ∨ k ∈ taken ws' := by
  unfold taken
  rw [List.flatMap_append, List.mem_append]

theorem not_mem_taken_of_apart {ws ws' : List Write} (h : engine.Apart ws ws') {k : RowKey}
    (hk : k ∈ taken ws') : k ∉ taken ws := by
  intro hk'
  obtain ⟨w, hw, hkw⟩ := List.mem_flatMap.mp hk'
  obtain ⟨w', hw', hkw'⟩ := List.mem_flatMap.mp hk
  have hconflict : engine.conflict w w' = true :=
    List.any_eq_true.mpr ⟨k, hkw, decide_eq_true hkw'⟩
  rw [h w hw w' hw'] at hconflict
  cases hconflict

/-! ## What a write does to a lookup -/

theorem find?_append_one {ρ : Type} {P : ρ → Bool} (l : List ρ) (r : ρ) :
    (l ++ [r]).find? P = (l.find? P).or (if P r then some r else none) := by
  rw [List.find?_append, List.find?_singleton]

theorem find?_map_if {ρ κ : Type} [DecidableEq κ] {key : ρ → κ} {f : ρ → ρ} (hf : ∀ r, key (f r) = key r)
    (l : List ρ) (id k : κ) :
    (l.map (fun r => if key r = id then f r else r)).find? (fun r => key r = k)
      = (l.find? (fun r => key r = k)).map (fun r => if k = id then f r else r) := by
  rw [List.find?_map]
  have hkey : (fun r => decide (key r = k)) ∘ (fun r => if key r = id then f r else r)
      = fun r => decide (key r = k) := by
    funext r
    show decide (key (if key r = id then f r else r) = k) = _
    split
    · rw [hf]
    · rfl
  rw [hkey]
  cases h : l.find? (fun r => key r = k) with
  | none => rfl
  | some r =>
    have hr : key r = k := by simpa using List.find?_some h
    simp [hr]

theorem ConclusionUpdate.apply_id (u : ConclusionUpdate) (c : ResearchConclusion) : (u.apply c).id = c.id := by
  cases u <;> rfl

theorem ConclusionUpdate.apply_workspaceId (u : ConclusionUpdate) (c : ResearchConclusion) :
    (u.apply c).workspaceId = c.workspaceId := by
  cases u <;> rfl

theorem ConclusionUpdate.apply_sourceCandidateId (u : ConclusionUpdate) (c : ResearchConclusion) :
    (u.apply c).sourceCandidateId = c.sourceCandidateId := by
  cases u <;> rfl

/-- What a write makes of the turn with this identity. -/
def Write.onTurn (id : Uuid) : Write → Option ResearchTurn → Option ResearchTurn
  | .insertTurn row, t => t.or (if row.id = id then some row else none)
  | _, t => t

/-- What a write makes of the candidate with this identity. -/
def Write.onCandidate (id : Uuid) :
    Write → Option ResearchConclusionCandidate → Option ResearchConclusionCandidate
  | .insertCandidate row, c => c.or (if row.id = id then some row else none)
  | .updateCandidate id' status saved, c => c.map (fun c => if id = id' then c.decided status saved else c)
  | _, c => c

/-- What a write makes of the conclusion with this identity. -/
def Write.onConclusion (id : Uuid) : Write → Option ResearchConclusion → Option ResearchConclusion
  | .insertConclusion row, c => c.or (if row.id = id then some row else none)
  | .updateConclusion id' u, c => c.map (fun c => if id = id' then u.apply c else c)
  | _, c => c

/-- The revision a write adds to a conclusion. -/
def Write.revisionFor (conclusionId : Uuid) : Write → List ResearchConclusionRevision
  | .insertRevision row => if row.conclusionId = conclusionId then [row] else []
  | _ => []

/-- The workspace of the conclusion a write saves from a candidate. -/
def Write.savedFor (candidateId : Uuid) : Write → List Uuid
  | .insertConclusion row => if row.sourceCandidateId = some candidateId then [row.workspaceId] else []
  | _ => []

section Lookups

variable (w : Write) (d : Database) (id : Uuid)

theorem turn?_apply : (w.apply d).turn? id = w.onTurn id (d.turn? id) := by
  cases w with
  | insertTurn row =>
    show (d.turns ++ [row]).find? _ = _
    rw [find?_append_one]
    simp [Write.onTurn, Database.turn?]
  | _ => rfl

theorem candidate?_apply : (w.apply d).candidate? id = w.onCandidate id (d.candidate? id) := by
  cases w with
  | insertCandidate row =>
    show (d.candidates ++ [row]).find? _ = _
    rw [find?_append_one]
    simp [Write.onCandidate, Database.candidate?]
  | updateCandidate id' status saved =>
    have hid : ∀ c : ResearchConclusionCandidate, (c.decided status saved).id = c.id := fun _ => rfl
    exact find?_map_if hid d.candidates id' id
  | _ => rfl

theorem conclusion?_apply : (w.apply d).conclusion? id = w.onConclusion id (d.conclusion? id) := by
  cases w with
  | insertConclusion row =>
    show (d.conclusions ++ [row]).find? _ = _
    rw [find?_append_one]
    simp [Write.onConclusion, Database.conclusion?]
  | updateConclusion id' u =>
    exact find?_map_if u.apply_id d.conclusions id' id
  | _ => rfl

theorem revisionsOf_apply : (w.apply d).revisionsOf id = d.revisionsOf id ++ w.revisionFor id := by
  cases w with
  | insertRevision row =>
    show (d.revisions ++ [row]).filter _ = _
    rw [List.filter_append, List.filter_singleton]
    simp [Write.revisionFor, Database.revisionsOf]
  | _ => exact (List.append_nil _).symm

theorem savedFrom_apply : (w.apply d).savedFrom id = d.savedFrom id ++ w.savedFor id := by
  cases w with
  | insertConclusion row =>
    show ((d.conclusions ++ [row]).filter _).map _ = _
    rw [List.filter_append, List.filter_singleton, List.map_append]
    by_cases h : row.sourceCandidateId = some id
    · simp [Write.savedFor, Database.savedFrom, h]
    · simp [Write.savedFor, Database.savedFrom, h]
  | updateConclusion id' u =>
    -- an UPDATE keeps where a conclusion comes from and its workspace
    show ((d.conclusions.map _).filter _).map _ = _ ++ []
    rw [List.append_nil, List.filter_map, List.map_map]
    have hsource : (fun c => decide (c.sourceCandidateId = some id)) ∘
        (fun c => if c.id = id' then u.apply c else c)
          = fun c : ResearchConclusion => decide (c.sourceCandidateId = some id) := by
      funext c
      show decide ((if c.id = id' then u.apply c else c).sourceCandidateId = some id) = _
      split
      · rw [u.apply_sourceCandidateId]
      · rfl
    have hworkspace : ResearchConclusion.workspaceId ∘ (fun c => if c.id = id' then u.apply c else c)
        = ResearchConclusion.workspaceId := by
      funext c
      show (if c.id = id' then u.apply c else c).workspaceId = _
      split
      · exact u.apply_workspaceId c
      · rfl
    rw [hsource, hworkspace]
    rfl
  | _ => exact (List.append_nil _).symm

end Lookups

end Irip.Conclusions
