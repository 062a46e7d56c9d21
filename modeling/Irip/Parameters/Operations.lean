import Irip.Base.Txn
import Irip.Parameters.Entities

/-!
# `Parameters.Operations` — the statements of the parameter service

Each operation is one SQL statement, or one reading of the clock or of the random source. The tables written by
the parameter service are the database; `derivation_run` belongs to the provenance package, so what a SELECT of
it finds is part of the `Answer`.
-/

namespace Irip.Parameters

/-! ## Database -/

/-- The tables the service writes. -/
structure Database where
  parameters : List Parameter := []
  candidates : List ParameterCandidate := []
  versions : List ParameterVersion := []
  edges : List ProvenanceEdge := []

/-- What a review writes into a candidate. -/
structure Review where
  status : CandidateStatus
  reviewedBy : Uuid
  reviewedAt : Time
  reviewDecision : CandidateStatus
  reviewComment : Option String := none

/-- The candidate after a review; a comment that was not given is left as it was. -/
def ParameterCandidate.reviewed (c : ParameterCandidate) (r : Review) : ParameterCandidate :=
  { c with
    status := r.status
    reviewedBy := some r.reviewedBy
    reviewedAt := some r.reviewedAt
    reviewDecision := some r.reviewDecision
    reviewComment := r.reviewComment.or c.reviewComment }

/-- The effect of a statement on rows. -/
inductive Write where
  | insertParameter (row : Parameter)
  | insertCandidate (row : ParameterCandidate)
  | insertVersion (row : ParameterVersion)
  | insertEdge (row : ProvenanceEdge)
  | setParameter (id : Uuid) (status : ParameterStatus)
  | reviewCandidate (id : Uuid) (review : Review)
  | deprecateVersions (ids : List Uuid)

/-- The database after a write. -/
def Write.apply : Write → Database → Database
  | .insertParameter row, d => { d with parameters := d.parameters ++ [row] }
  | .insertCandidate row, d => { d with candidates := d.candidates ++ [row] }
  | .insertVersion row, d => { d with versions := d.versions ++ [row] }
  | .insertEdge row, d => { d with edges := d.edges ++ [row] }
  | .setParameter id status, d =>
    { d with
      parameters := d.parameters.map (fun p =>
        if p.id = id then { p with status := status, lockVersion := p.lockVersion + 1 } else p) }
  | .reviewCandidate id r, d =>
    { d with candidates := d.candidates.map (fun c => if c.id = id then c.reviewed r else c) }
  | .deprecateVersions ids, d =>
    { d with versions := d.versions.map (fun v => if v.id ∈ ids then { v with status := .deprecated } else v) }

/-! ## Operations -/

/-- A statement of the service. -/
inductive Op where
  | newId
  | now
  | selectRun (id : Uuid)
  | selectParameter (id : Uuid)
  | selectParameterBy (variableCode : String) (objectId : Uuid)
  | selectCandidate (id : Uuid)
  | selectCandidateJoined (id : Uuid)
  | selectCandidateBy (parameterId derivationRunId : Uuid)
  | selectMaxVersion (parameterId : Uuid)
  | insertParameter (row : Parameter)
  | insertCandidate (row : ParameterCandidate)
  | insertVersion (row : ParameterVersion)
  | insertEdge (row : ProvenanceEdge)
  | updateParameter (id : Uuid) (status : ParameterStatus)
  | updateCandidate (id : Uuid) (review : Review)
  | deprecateVersions (parameterId : Uuid)

/-- What a statement answers. -/
@[reducible] def Res : Op → Type
  | .newId => Uuid
  | .now => Time
  | .selectRun _ => Option DerivationRun
  | .selectParameter _ => Option Parameter
  | .selectParameterBy _ _ => Option Parameter
  | .selectCandidate _ => Option ParameterCandidate
  | .selectCandidateJoined _ => Option ParameterCandidate
  | .selectCandidateBy _ _ => Option ParameterCandidate
  | .selectMaxVersion _ => Option Nat
  | .insertParameter _ => Except Exn Unit
  | .insertCandidate _ => Except Exn Unit
  | .insertVersion _ => Except Exn Unit
  | .insertEdge _ => Except Exn Unit
  | .updateParameter _ _ => Unit
  | .updateCandidate _ _ => Unit
  | .deprecateVersions _ => Unit

/-- What the surroundings contribute to an answer: the random source, the clock, the status of a derivation run,
and whether a foreign key into a table of another package resolves. -/
structure Answer where
  id : Uuid := ""
  now : Time := 0
  runStatus : Option DerivationStatus := none
  resolves : Bool := true

/-- `max(version)` of a parameter's versions. -/
def Database.maxVersion (d : Database) (parameterId : Uuid) : Option Nat :=
  ((d.versions.filter (fun v => v.parameterId = parameterId)).map ParameterVersion.version).max?

/-- An INSERT: refused when a constraint does not hold. -/
def insert (allowed : Bool) (w : Write) : Except Exn Unit × List Write :=
  if allowed then (.ok (), [w]) else (.error .integrityError, [])

theorem insert_cases {allowed : Bool} {w : Write} {x : Except Exn Unit} {new : List Write}
    (h : insert allowed w = (x, new)) :
    (allowed = true ∧ x = .ok () ∧ new = [w]) ∨ (allowed = false ∧ x = .error .integrityError ∧ new = []) := by
  cases allowed with
  | true => exact .inl ⟨rfl, (Prod.mk.inj h).1.symm, (Prod.mk.inj h).2.symm⟩
  | false => exact .inr ⟨rfl, (Prod.mk.inj h).1.symm, (Prod.mk.inj h).2.symm⟩

/-- The parameter a row refers to exists. -/
def Database.hasParameter (d : Database) (id : Uuid) : Bool := d.parameters.any (fun p => p.id = id)

/-- The answer of a statement that sees the database `d`, and what it writes. -/
def handle : (o : Op) → Answer → Database → Option (Res o × List Write)
  | .newId, a, _ => some (a.id, [])
  | .now, a, _ => some (a.now, [])
  | .selectRun id, a, _ => some (a.runStatus.map (DerivationRun.mk id), [])
  | .selectParameter id, _, d => some (d.parameters.find? (fun p => p.id = id), [])
  | .selectParameterBy code obj, _, d =>
    some (d.parameters.find? (fun p => p.variableCode = code ∧ p.objectId = obj), [])
  | .selectCandidate id, _, d => some (d.candidates.find? (fun c => c.id = id), [])
  | .selectCandidateJoined id, _, d =>
    some (d.candidates.find? (fun c => c.id = id ∧ d.hasParameter c.parameterId), [])
  | .selectCandidateBy param run, _, d =>
    some (d.candidates.find? (fun c => c.parameterId = param ∧ c.derivationRunId = run), [])
  | .selectMaxVersion param, _, d => some (d.maxVersion param, [])
  | .insertParameter row, a, d =>
    some (insert (a.resolves && row.ownerUserId.isSome && !d.parameters.any row.clashes) (.insertParameter row))
  | .insertCandidate row, a, d =>
    some (insert (a.resolves && row.submittedBy.isSome && d.hasParameter row.parameterId
      && !d.candidates.any row.clashes) (.insertCandidate row))
  | .insertVersion row, a, d =>
    some (insert (a.resolves && d.hasParameter row.parameterId && !d.versions.any row.clashes)
      (.insertVersion row))
  | .insertEdge row, a, d =>
    some (insert (a.resolves && !d.edges.any (fun e => e.id = row.id)) (.insertEdge row))
  | .updateParameter id status, _, _ => some ((), [.setParameter id status])
  | .updateCandidate id review, _, _ => some ((), [.reviewCandidate id review])
  | .deprecateVersions param, _, d =>
    some ((), [.deprecateVersions
      ((d.versions.filter (fun v => v.parameterId = param ∧ v.status = .published)).map ParameterVersion.id)])

/-! ## The engine -/

/-- Two writes that claim one key of a unique index, or update one row. -/
def Write.conflict : Write → Write → Bool
  | .insertParameter p, .insertParameter q => p.clashes q
  | .insertCandidate c, .insertCandidate e => c.clashes e
  | .insertVersion v, .insertVersion w => v.clashes w
  | .insertEdge e, .insertEdge f => e.id == f.id
  | .setParameter id _, .setParameter id' _ => id == id'
  | .reviewCandidate id _, .reviewCandidate id' _ => id == id'
  | .deprecateVersions ids, .deprecateVersions ids' => ids.any (fun id => id ∈ ids')
  | _, _ => false

/-- The tables under PostgreSQL's READ COMMITTED. -/
def engine : Engine Database Write Answer Op Res where
  apply := Write.apply
  conflict := Write.conflict
  handle := handle

theorem Parameter.clashes_comm (p q : Parameter) : p.clashes q = q.clashes p := by
  simp only [clashes, Bool.beq_comm (a := p.id), Bool.beq_comm (a := p.departmentId),
    Bool.beq_comm (a := p.variableCode), Bool.beq_comm (a := p.objectId)]

theorem ParameterCandidate.clashes_comm (c d : ParameterCandidate) : c.clashes d = d.clashes c := by
  simp only [clashes, Bool.beq_comm (a := c.id), Bool.beq_comm (a := c.parameterId),
    Bool.beq_comm (a := c.derivationRunId)]

theorem ParameterVersion.clashes_comm (v w : ParameterVersion) : v.clashes w = w.clashes v := by
  simp only [clashes, Bool.beq_comm (a := v.id), Bool.beq_comm (a := v.parameterId),
    Bool.beq_comm (a := v.version)]

theorem Write.conflict_comm (w w' : Write) : w.conflict w' = w'.conflict w := by
  cases w with
  | insertParameter p => cases w' <;> first | rfl | exact p.clashes_comm _
  | insertCandidate c => cases w' <;> first | rfl | exact c.clashes_comm _
  | insertVersion v => cases w' <;> first | rfl | exact v.clashes_comm _
  | insertEdge e | setParameter id st | reviewCandidate id r => cases w' <;> first | rfl | exact Bool.beq_comm
  | deprecateVersions ids =>
    cases w' with
    | deprecateVersions ids' =>
      show ids.any (fun id => id ∈ ids') = ids'.any (fun id => id ∈ ids)
      rw [Bool.eq_iff_iff]
      simp only [List.any_eq_true, decide_eq_true_eq]
      exact ⟨fun ⟨id, h, h'⟩ => ⟨id, h', h⟩, fun ⟨id, h, h'⟩ => ⟨id, h', h⟩⟩
    | _ => rfl

end Irip.Parameters
