import Irip.Base.Pool
import Irip.Flow.Entities

/-!
# `Flow.Operations` — what the execution engine asks of its surroundings

Each operation is one atomic step: one SQL statement together with the commit that follows it, one access to
the cancel events of a service instance, one reading of the clock, one call of the registry or of the
component runner. `handle` says what an operation does to the state; an `Answer` holds what the state alone
does not determine (the clock, the order in which a SELECT returns its rows, the outcome of a component).
-/

namespace Irip.Flow

open Table (Update update)

abbrev ServiceId := Nat
abbrev EventId := Nat

/-! ## State -/

/-- The tables, the `asyncio.Event` objects (set or not), and the dictionary `_cancel_events` of each service
instance. -/
structure State where
  runs : List FlowRun
  versions : List FlowDefinitionVersion
  executions : List FlowNodeExecution := []
  jobs : Jobs.Db := { jobs := [], outbox := [] }
  events : List Bool := []
  cancelEvents : Dict (ServiceId × RunId) EventId := ∅

/-- The status of a run. -/
def State.runStatus? (s : State) (r : RunId) : Option RunStatus := (s.runs[r]?).map FlowRun.status

/-! ## Operations -/

/-- The SET list of an UPDATE of `flow_run`. -/
structure RunValues where
  status : Option RunStatus := none
  startedAt : Option Time := none
  completedAt : Option Time := none
  outputDigest : Option String := none

/-- `UPDATE flow_run SET … WHERE id = :id`. -/
def RunValues.stmt (v : RunValues) : Update FlowRun where
  cond _ := true
  set r :=
    { r with
      status := v.status.getD r.status
      startedAt := v.startedAt.or r.startedAt
      completedAt := v.completedAt.or r.completedAt
      outputDigest := v.outputDigest.or r.outputDigest }

/-- The SET list of an UPDATE of `flow_node_execution`. -/
structure ExecutionValues where
  status : NodeStatus
  startedAt : Option Time := none
  outputSummary : Option JsonDict := none

/-- `UPDATE flow_node_execution SET … WHERE id = :id`; the summary is stored as JSONB. -/
def ExecutionValues.stmt (jsonb : Json → Json) (v : ExecutionValues) : Update FlowNodeExecution where
  cond _ := true
  set e :=
    { e with
      status := v.status
      startedAt := v.startedAt.or e.startedAt
      outputSummary := (v.outputSummary.map (Dict.mapVal jsonb)).getD e.outputSummary }

/-- The WHERE and ORDER BY clauses of a SELECT on `flow_node_execution`. -/
structure ExecutionQuery where
  run : RunId
  node : Option String := none
  status : Option NodeStatus := none
  byStartedAt : Bool := false

/-- The row meets the WHERE clause. -/
def ExecutionQuery.selects (q : ExecutionQuery) (e : FlowNodeExecution) : Bool :=
  e.flowRunId == q.run && (match q.node with | some n => e.nodeId == n | none => true) &&
    (match q.status with | some st => e.status == st | none => true)

/-- An operation of the engine. -/
inductive Op where
  | now
  | selectRun (run : RunId)
  | selectVersion (version : VersionId)
  | updateRun (run : RunId) (values : RunValues)
  | updateJobStatus (job : Jobs.JobId) (status : String)
  | selectExecutions (query : ExecutionQuery)
  | insertExecution (run : RunId) (node : String)
  | updateExecution (execution : ExecutionId) (values : ExecutionValues)
  | newEvent (service : ServiceId) (run : RunId)
  | setEvent (service : ServiceId) (run : RunId)
  | isSet (event : EventId)
  | getLatest (componentName : String)
  | runComponent (manifest : ComponentManifest) (params : JsonDict)

/-- The run and the node a row is inserted for. -/
def Op.inserts : Op → Option (RunId × String)
  | .insertExecution run node => some (run, node)
  | _ => none

/-- What an operation answers. -/
@[reducible] def Res : Op → Type
  | .now => Time
  | .selectRun _ => Option FlowRun
  | .selectVersion _ => Option FlowDefinitionVersion
  | .updateRun _ _ => Unit
  | .updateJobStatus _ _ => Unit
  | .selectExecutions _ => List FlowNodeExecution
  | .insertExecution _ _ => ExecutionId
  | .updateExecution _ _ => Except Exn Unit
  | .newEvent _ _ => EventId
  | .setEvent _ _ => Unit
  | .isSet _ => Bool
  | .getLatest _ => Except Exn ComponentManifest
  | .runComponent _ _ => Except Exn ComponentResult

/-- What the surroundings contribute to an answer. Each operation reads the field it needs. -/
structure Answer where
  now : Time := 0
  rows : List ExecutionId := []
  commit : Except Exn Unit := .ok ()
  manifest : Except Exn ComponentManifest := .error (.other "LookupError" "")
  result : Except Exn ComponentResult := .error (.other "RuntimeError" "")

/-! ## Semantics -/

/-- The keys of the rows a SELECT finds, in table order. -/
def State.matching (s : State) (q : ExecutionQuery) : List ExecutionId :=
  (List.range s.executions.length).filter (fun i => (s.executions[i]?).any q.selects)

/-- The rows with these keys. -/
def State.rowsAt (s : State) (ids : List ExecutionId) : List FlowNodeExecution :=
  ids.filterMap (fun i => s.executions[i]?)

/-- Ascending order with NULLs last. -/
def startedLe (a b : FlowNodeExecution) : Bool :=
  match a.startedAt, b.startedAt with
  | some t, some u => t ≤ u
  | none, some _ => false
  | _, none => true

/-- A SELECT may return its rows in any order the ORDER BY clause leaves open. -/
def State.mayReturn (s : State) (q : ExecutionQuery) (ids : List ExecutionId) : Prop :=
  ids.Perm (s.matching q) ∧
    (q.byStartedAt = true → (s.rowsAt ids).Pairwise (fun a b => startedLe a b = true))

instance (s : State) (q : ExecutionQuery) (ids : List ExecutionId) : Decidable (s.mayReturn q ids) :=
  inferInstanceAs (Decidable (_ ∧ _))

/-- The semantics of the operations; `none` when the surroundings cannot answer so. -/
def handle (jsonb : Json → Json) : (o : Op) → Answer → State → Option (Res o × State)
  | .now, a, s => some (a.now, s)
  | .selectRun r, _, s => some (s.runs[r]?, s)
  | .selectVersion v, _, s => some (s.versions[v]?, s)
  | .updateRun r values, _, s => some ((), { s with runs := update s.runs [r] values.stmt })
  | .updateJobStatus j status, a, s => some ((), { s with jobs := Jobs.updateJobStatus a.now s.jobs j status })
  | .selectExecutions q, a, s =>
    if s.mayReturn q a.rows then some (s.rowsAt a.rows, s) else none
  | .insertExecution r node, _, s =>
    some (s.executions.length, { s with executions := s.executions ++ [{ flowRunId := r, nodeId := node }] })
  | .updateExecution e values, a, s =>
    match a.commit with
    | .ok () => some (.ok (), { s with executions := update s.executions [e] (values.stmt jsonb) })
    | .error x => some (.error x, s)
  | .newEvent svc r, _, s =>
    some (s.events.length,
      { s with events := s.events ++ [false], cancelEvents := s.cancelEvents.set (svc, r) s.events.length })
  | .setEvent svc r, _, s =>
    match s.cancelEvents.get? (svc, r) with
    | some e => some ((), { s with events := s.events.set e true })
    | none => some ((), s)
  | .isSet e, _, s => some ((s.events[e]?).getD false, s)
  | .getLatest _, a, s => some (a.manifest, s)
  | .runComponent _ _, a, s => some (a.result, s)

/-! ## Rows -/

section Rows

variable {jsonb : Json → Json} {o : Op} {a : Answer} {s s' : State} {r : Res o}

theorem runs_handle (h : handle jsonb o a s = some (r, s')) :
    s'.runs = s.runs ∨ ∃ i v, o = .updateRun i v ∧ s'.runs = update s.runs [i] v.stmt := by
  cases o with
  | updateRun i v =>
    obtain ⟨_, rfl⟩ := answer_inj h
    exact .inr ⟨i, v, rfl, rfl⟩
  | selectExecutions q =>
    left
    simp only [handle] at h
    split at h
    · obtain ⟨_, rfl⟩ := answer_inj h
      rfl
    · cases h
  | updateExecution e v | setEvent svc i =>
    left
    simp only [handle] at h
    split at h <;> (obtain ⟨_, rfl⟩ := answer_inj h; rfl)
  | _ =>
    left
    obtain ⟨_, rfl⟩ := answer_inj h
    rfl

end Rows

end Irip.Flow
