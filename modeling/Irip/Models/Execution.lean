import Irip.Base.DateTime
import Irip.Base.Pool
import Irip.Facts.Service
import Irip.Models.Service

/-!
# `Models.Execution` — when a prediction is recorded

A prediction reads the version, executes it, and has `FactService` create a fact about it. Calls are interleaved
statement by statement, and everybody else may change the tables between two statements.
-/

namespace Irip.Models.Execution

open Runs

/-! ## Statements -/

/-- What the adapter returns, and when. -/
structure Output where
  predictions : Dict String Json
  adapterType : Json := .null
  endedAt : Time

/-- A statement of a prediction. -/
inductive Op where
  | now
  | selectModel (id : Uuid)
  | selectVersion (id : Uuid)
  | execute (versionId : Uuid) (inputs : Fields)
  | fact (o : Facts.Op)

/-- What a statement answers. -/
@[reducible] def Res : Op → Type
  | .now => Time
  | .selectModel _ => Option Model
  | .selectVersion _ => Option ModelVersion
  | .execute _ _ => Except Exn Output
  | .fact o => Facts.Res o

/-- What the surroundings contribute to an answer. -/
structure Answer where
  now : Time := 0
  output : Except Exn Output := .error .python
  fact : Facts.Answer := {}

/-- The tables a prediction reads and writes. -/
structure World where
  tables : Tables
  facts : Facts.Database

/-- What a statement answers, and the tables after it. -/
def handle (unique : Bool) : (o : Op) → Answer → World → Option (Res o × World)
  | .now, a, w => some (a.now, w)
  | .selectModel id, _, w => some (w.tables.models.get? id, w)
  | .selectVersion id, _, w => some (w.tables.versions.get? id, w)
  | .execute _ _, a, w => some (a.output, w)
  | .fact o, a, w =>
    some ((Facts.handle unique o a.fact w.facts).1, { w with facts := (Facts.handle unique o a.fact w.facts).2 })

/-! ## Calls -/

abbrev M (α : Type) : Type := Prog Op Res Exn α

/-- One statement. -/
abbrev ask (o : Op) : M (Res o) := Prog.perform o

/-- An exception of the fact service. -/
def ofFacts : Facts.Exn → Exn
  | .app e => .app e
  | .database => .python

/-- A call of the fact service. -/
def ofFactService {α : Type} : Facts.M α → M α
  | .ret a => .ret a
  | .raise e => .raise (ofFacts e)
  | .op o k => .op (.fact o) (fun r => ofFactService (k r))

/-- `ModelService`, as far as predictions use it. -/
structure ModelService where
  departmentId : Uuid
  factService : Option Facts.FactService

structure PredictionResult where
  modelId : Uuid
  modelVersionId : Uuid
  version : Nat
  predictions : Dict String Json
  metadata : Fields
  factId : Option Uuid

/-- A prediction that has an output. -/
structure Executed where
  version : ModelVersion
  versionId : Uuid
  startedAt : Time
  output : Output

def idempotencyKey (versionId : Uuid) (startedAt : Time) : String :=
  s!"model-exec-{versionId}-{DateTime.isoformat startedAt}"

/-- The command of `_write_execution_fact`. -/
def command (s : ModelService) (x : Executed) : Facts.CreateFactCommand where
  factType := "model_execution"
  departmentId := s.departmentId
  objectId := x.version.modelId
  subjectId := s!"model:{x.version.modelId}:version:{x.version.version}"
  startedAt := some x.startedAt
  endedAt := some x.output.endedAt
  idempotencyKey := some (idempotencyKey x.versionId x.startedAt)
  createdBy := none

def writeExecutionFact (s : ModelService) (x : Executed) : M (Option Uuid) :=
  match s.factService with
  | none => return none
  | some service => do
    let ref ← ofFactService (Facts.create service (command s x))
    return some ref.factId

/-- The result of a prediction. -/
def result (x : Executed) (factId : Option Uuid) : PredictionResult where
  modelId := x.version.modelId
  modelVersionId := x.versionId
  version := x.version.version
  predictions := x.output.predictions
  metadata :=
    [("started_at", .str (DateTime.isoformat x.startedAt)), ("ended_at", .str (DateTime.isoformat x.output.endedAt)),
     ("adapter_type", x.output.adapterType), ("within_applicability_domain", .bool true)]
  factId := factId

def predictVersion (s : ModelService) (versionId : Uuid) (inputs : Fields) : M PredictionResult := do
  let startedAt ← ask .now
  let version ← ask (.selectVersion versionId)
  let version ← Prog.lift (requireVersion "模型版本不存在: " version versionId)
  let output ← ask (.execute versionId inputs)
  let output ← Prog.lift output
  let factId ← writeExecutionFact s ⟨version, versionId, startedAt, output⟩
  return result ⟨version, versionId, startedAt, output⟩ factId

def predict (s : ModelService) (modelId : Uuid) (inputs : Fields) : M PredictionResult := do
  let model ← ask (.selectModel modelId)
  let versionId ← Prog.lift ((currentVersion model modelId).mapError .app)
  predictVersion s versionId inputs

/-- A call, with the service it is made to. -/
inductive Call where
  | predict (s : ModelService) (modelId : Uuid) (inputs : Fields)
  | predictVersion (s : ModelService) (versionId : Uuid) (inputs : Fields)

def Call.service : Call → ModelService
  | .predict s _ _ => s
  | .predictVersion s _ _ => s

def prog : Call → M PredictionResult
  | .predict s modelId inputs => predict s modelId inputs
  | .predictVersion s versionId inputs => predictVersion s versionId inputs

/-- The calls, and the tables. -/
abbrev Sys : Type := Pool Call Op Res Exn PredictionResult World

/-- What can happen: something about a call, or a change of the tables by others. -/
inductive Step where
  | call (act : Pool.Action Call Answer)
  | others (w : World)

def step (unique : Bool) (p : Sys) : Step → Option Sys
  | .call act => Pool.step prog (handle unique) p act
  | .others w => some { p with state := w }

/-! ## Promise and condition -/

/-- A call that makes a statement when its adapter has returned an output, or is just about to. -/
structure Due where
  index : Nat
  call : Call
  op : Op
  answer : Answer

/-- The adapter has returned an output, or does now. -/
def Op.hasOutput (a : Answer) : Op → Bool
  | .execute _ _ => a.output.isOk
  | .fact _ => true
  | _ => false

/-- Whether a transition is a statement of such a call. -/
def due (t : Transition Sys Step) : Option Due :=
  match t.act with
  | .call (.step i a) =>
    match t.pre.threads[i]? with
    | some ⟨c, some (.op o _)⟩ => if o.hasOutput a then some ⟨i, c, o, a⟩ else none
    | _ => none
  | _ => none

/-- The statements up to the insertion. -/
def Op.left : Op → Nat
  | .fact (.insertFact _) => 1
  | .fact (.selectObject _) => 2
  | .fact (.findByIdempotencyKey _ _) => 3
  | _ => 4

/-- The call goes on towards the insertion, and has made no fact. -/
def GoesOn (o : Op) (q : M PredictionResult) (before after : Facts.Database) : Prop :=
  ∃ o' k, q = .op o' k ∧ o'.left < o.left ∧ after = before

/-- The call has succeeded, and has made a fact of its own. -/
def Succeeds (c : Call) (q : M PredictionResult) (before after : Facts.Database) : Prop :=
  ∃ x id row, q = .ret x ∧ x.factId = some id ∧ before.facts.get? id = none ∧ after.facts = before.facts.set id row ∧
    row.factType = "model_execution" ∧ row.departmentId = c.service.departmentId ∧
    row.subjectId = s!"model:{x.modelId}:version:{x.version}"

/-- What a transition owes to a call whose adapter has returned an output. -/
def Recorded (t : Transition Sys Step) : Prop :=
  ∀ x ∈ due t, ∀ q, t.post.threads[x.index]? = some ⟨x.call, some q⟩ →
    GoesOn x.op q t.pre.state.facts t.post.state.facts ∨ Succeeds x.call q t.pre.state.facts t.post.state.facts

/-- What a statement has to find: a fact service; no fact with the key; the object that the model is supposed to be;
a row that the table takes. -/
def Op.unhindered (unique : Bool) (s : ModelService) (a : Answer) (w : World) : Op → Bool
  | .execute _ _ => s.factService.isSome
  | .fact (.findByIdempotencyKey dep key) => (w.facts.withKey a.fact.visible dep key).isEmpty
  | .fact (.selectObject id) => w.facts.objects.contains id && a.fact.visible id
  | .fact (.insertFact row) => Facts.admits unique w.facts a.fact row
  | _ => true

def Unhindered (unique : Bool) (t : Transition Sys Step) : Prop :=
  ∀ x ∈ due t, x.op.unhindered unique x.call.service x.answer t.pre.state = true

instance (unique : Bool) (t : Transition Sys Step) : Decidable (Unhindered unique t) := by
  unfold Unhindered
  infer_instance

/-! ## Stages -/

/-- A prediction with an output, up to its end. -/
def record (s : ModelService) (x : Executed) : M PredictionResult :=
  writeExecutionFact s x >>= fun factId => .ret (result x factId)

/-- The end of a call of the fact service. -/
def finish (x : Executed) (q : Facts.M Facts.FactRef) : M PredictionResult :=
  ofFactService q >>= fun ref => .ret (result x (some ref.factId))

/-- What is left after the check of the key. -/
def afterKey (service : Facts.FactService) (cmd : Facts.CreateFactCommand)
    (found : Except Facts.Exn (Option (Uuid × Facts.Fact))) : Facts.M Facts.FactRef := do
  let existing ← Prog.lift found
  match existing with
  | some (id, row) => return Facts.refOf id row
  | none => Facts.insertChecked service cmd

/-- What is left after the check of the object. -/
def afterObject (service : Facts.FactService) (cmd : Facts.CreateFactCommand) (found : Bool) :
    Facts.M Facts.FactRef :=
  if found then do
    let inserted ← Facts.ask (.insertFact (service.row cmd))
    let id ← Prog.lift inserted
    return Facts.refOf id (service.row cmd)
  else .raise (.app (Facts.objectNotFound cmd.objectId))

/-- What is left after the insertion. -/
def afterInsert (service : Facts.FactService) (cmd : Facts.CreateFactCommand) (inserted : Except Facts.Exn Uuid) :
    Facts.M Facts.FactRef := do
  let id ← Prog.lift inserted
  return Facts.refOf id (service.row cmd)

/-- Where a call can be. -/
inductive Stage (s : ModelService) : M PredictionResult → Prop where
  | early {o : Op} {k : Res o → M PredictionResult} (noOutput : ∀ a, o.hasOutput a = false)
      (next : ∀ r, Stage s (k r)) : Stage s (.op o k)
  | execute {version : ModelVersion} {versionId : Uuid} {startedAt : Time} {inputs : Fields} :
      Stage s (.op (.execute versionId inputs)
        (fun output => Prog.lift output >>= fun output => record s ⟨version, versionId, startedAt, output⟩))
  | key {service : Facts.FactService} {x : Executed} {dep : Uuid} {text : String} :
      Stage s (.op (.fact (.findByIdempotencyKey dep text)) (fun r => finish x (afterKey service (command s x) r)))
  | object {service : Facts.FactService} {x : Executed} {id : Uuid} :
      Stage s (.op (.fact (.selectObject id)) (fun r => finish x (afterObject service (command s x) r)))
  | insert {service : Facts.FactService} {x : Executed} :
      Stage s (.op (.fact (.insertFact (service.row (command s x))))
        (fun r => finish x (afterInsert service (command s x) r)))
  | ret {x : PredictionResult} : Stage s (.ret x)
  | raise {e : Exn} : Stage s (.raise e)

variable {s : ModelService} {x : Executed} {service : Facts.FactService} {unique : Bool}

theorem record_none (h : s.factService = none) : record s x = .ret (result x none) := by
  rw [record, writeExecutionFact, h]
  rfl

theorem record_some (h : s.factService = some service) :
    record s x = .op (.fact (.findByIdempotencyKey s.departmentId (idempotencyKey x.versionId x.startedAt)))
      (fun r => finish x (afterKey service (command s x) r)) := by
  have hvalid : ¬ (command s x).factType ∉ Facts.validFactTypes := by
    show ¬ "model_execution" ∉ Facts.validFactTypes
    decide
  have hcreate : Facts.create service (command s x) =
      .op (.findByIdempotencyKey s.departmentId (idempotencyKey x.versionId x.startedAt))
        (fun r => afterKey service (command s x) r) := by
    rw [Facts.create, if_neg hvalid]
    rfl
  rw [record, writeExecutionFact, h]
  show ((ofFactService (Facts.create service (command s x)) >>= fun ref => .ret (some ref.factId)) >>=
    fun factId => .ret (result x factId)) = _
  rw [Prog.bind_assoc, hcreate]
  rfl

theorem stage_finish_lift {α : Type} {y : Except Facts.Exn α} {f : α → Facts.M Facts.FactRef}
    (h : ∀ a, Stage s (finish x (f a))) : Stage s (finish x (Prog.lift y >>= f)) := by
  cases y with
  | ok a => exact h a
  | error e => exact .raise

theorem stage_record : Stage s (record s x) := by
  cases h : s.factService with
  | none =>
    rw [record_none h]
    exact .ret
  | some service =>
    rw [record_some h]
    exact .key

theorem Stage.next {o : Op} {k : Res o → M PredictionResult} (h : Stage s (.op o k)) (r : Res o) : Stage s (k r) := by
  cases h with
  | early noOutput next => exact next r
  | execute =>
    cases r with
    | ok output => exact stage_record
    | error e => exact .raise
  | @key service x dep text =>
    refine stage_finish_lift fun existing => ?_
    cases existing with
    | none => exact .object
    | some e => exact .ret
  | @object service x id =>
    cases r with
    | true => exact .insert
    | false => exact .raise
  | @insert service x => exact stage_finish_lift fun id => .ret

theorem stage_predictVersion {versionId : Uuid} {inputs : Fields} : Stage s (predictVersion s versionId inputs) := by
  refine .early (fun _ => rfl) fun startedAt => .early (fun _ => rfl) fun version => ?_
  show Stage s (Prog.lift (requireVersion _ version versionId) >>= _)
  cases requireVersion "模型版本不存在: " version versionId with
  | error e => exact .raise
  | ok version => exact .execute

theorem stage_prog (c : Call) : Stage c.service (prog c) := by
  cases c with
  | predictVersion s versionId inputs => exact stage_predictVersion
  | predict s modelId inputs =>
    refine .early (fun _ => rfl) fun model => ?_
    show Stage s (Prog.lift ((currentVersion model modelId).mapError .app) >>= _)
    cases (currentVersion model modelId).mapError Exn.app with
    | error e => exact .raise
    | ok versionId => exact stage_predictVersion

/-! ## Steps -/

/-- What a statement of a call comes to, in terms of what is left of the call. -/
def Meets (c : Call) (o : Op) (q : M PredictionResult) (before after : Facts.Database) : Prop :=
  GoesOn o q before after ∨ Succeeds c q before after

variable {c : Call} {o : Op} {before after : Facts.Database}

theorem not_meets_raise {e : Exn} : ¬ Meets c o (.raise e) before after := by
  rintro (⟨o', k, h, -⟩ | ⟨y, id, row, h, -⟩)
  · cases h
  · cases h

theorem not_meets_ret {y : PredictionResult} (h : after = before) : ¬ Meets c o (.ret y) before after := by
  rintro (⟨o', k, hop, -⟩ | ⟨y', id, row, -, -, hnone, hset, -⟩)
  · cases hop
  · have hget : (before.facts.set id row).get? id = some row := by
      rw [Dict.get?_set, if_pos rfl]
    rw [← hset, h, hnone] at hget
    cases hget

theorem meets_op {o' : Op} {k : Res o' → M PredictionResult} (hleft : o'.left < o.left) :
    Meets c o (.op o' k) before before := .inl ⟨o', k, rfl, hleft, rfl⟩

theorem meets_execute {inputs : Fields} {versionId : Uuid} :
    Meets c (.execute versionId inputs) (record c.service x) before before ↔ c.service.factService.isSome = true := by
  cases h : c.service.factService with
  | none =>
    rw [record_none h]
    exact iff_of_false (not_meets_ret rfl) (by simp)
  | some service =>
    rw [record_some h]
    exact iff_of_true (meets_op (Nat.lt_succ_self _)) rfl

theorem withKey_isEmpty_iff {d : Facts.Database} {visible : Uuid → Bool} {dep key : String} :
    (d.withKey visible dep key).isEmpty = true ↔ Facts.scalarOneOrNone (d.withKey visible dep key) = .ok none := by
  cases d.withKey visible dep key with
  | nil => exact iff_of_true rfl rfl
  | cons e es =>
    cases es with
    | nil | cons e' es => exact iff_of_false nofun nofun

theorem meets_key {found : Except Facts.Exn (Option (Uuid × Facts.Fact))} {dep key : String} :
    Meets c (.fact (.findByIdempotencyKey dep key)) (finish x (afterKey service (command c.service x) found)) before before ↔
      found = .ok none := by
  cases found with
  | error e => exact iff_of_false not_meets_raise nofun
  | ok existing =>
    cases existing with
    | none => exact iff_of_true (meets_op (Nat.lt_succ_self _)) rfl
    | some e => exact iff_of_false (not_meets_ret rfl) nofun

theorem meets_object {found : Bool} {id : Uuid} :
    Meets c (.fact (.selectObject id)) (finish x (afterObject service (command c.service x) found)) before before ↔
      found = true := by
  cases found with
  | true => exact iff_of_true (meets_op (Nat.lt_succ_self _)) rfl
  | false => exact iff_of_false not_meets_raise nofun

theorem meets_insert {a : Facts.Answer} {d : Facts.Database} :
    Meets c (.fact (.insertFact (service.row (command c.service x))))
      (finish x (afterInsert service (command c.service x)
        (Facts.handle unique (.insertFact (service.row (command c.service x))) a d).1))
      d (Facts.handle unique (.insertFact (service.row (command c.service x))) a d).2 ↔
    Facts.admits unique d a (service.row (command c.service x)) = true := by
  cases hadmits : Facts.admits unique d a (service.row (command c.service x)) with
  | false =>
    rw [Facts.handle, hadmits]
    exact iff_of_false not_meets_raise nofun
  | true =>
    have hfresh : d.facts.get? a.id = none := by
      unfold Facts.admits at hadmits
      simp only [Bool.and_eq_true, Option.isNone_iff_eq_none] at hadmits
      exact hadmits.1.1.1.1.1.1.1.1
    rw [Facts.handle, hadmits]
    exact iff_of_true (.inr ⟨_, a.id, _, rfl, rfl, hfresh, rfl, rfl, rfl, rfl⟩) rfl

theorem meets_iff {k : Res o → M PredictionResult} (hstage : Stage c.service (.op o k)) {a : Answer} {w w' : World}
    {r : Res o} (hhandle : handle unique o a w = some (r, w')) (hdue : o.hasOutput a = true) :
    Meets c o (k r) w.facts w'.facts ↔ o.unhindered unique c.service a w = true := by
  cases hstage with
  | early noOutput next =>
    rw [noOutput a] at hdue
    cases hdue
  | @execute version versionId startedAt inputs =>
    obtain ⟨hr, rfl⟩ := Prod.mk.inj (Option.some.inj hhandle)
    cases hout : a.output with
    | error e =>
      have hfalse : a.output.isOk = true := hdue
      rw [hout] at hfalse
      cases hfalse
    | ok output =>
      have hr : r = .ok output := hr.symm.trans hout
      rw [hr]
      exact meets_execute
  | @key service x dep text =>
    obtain ⟨rfl, rfl⟩ := Prod.mk.inj (Option.some.inj hhandle)
    exact meets_key.trans withKey_isEmpty_iff.symm
  | @object service x id =>
    obtain ⟨rfl, rfl⟩ := Prod.mk.inj (Option.some.inj hhandle)
    exact meets_object
  | @insert service x =>
    obtain ⟨rfl, rfl⟩ := Prod.mk.inj (Option.some.inj hhandle)
    exact meets_insert

/-! ## Runs -/

variable {p p' : Sys}

/-- Every call is at a stage. -/
def Staged (p : Sys) : Prop :=
  ∀ (i : Nat) c q, p.threads[i]? = some ⟨c, some q⟩ → Stage c.service q

theorem staged_step {a : Step} (h : step unique p a = some p') (hp : Staged p) : Staged p' := by
  cases a with
  | others w =>
    obtain rfl := Option.some.inj h
    exact hp
  | call act =>
    intro i c q hi
    rcases Pool.thread_step h i with ⟨c', o, k, r, hop, -, hi'⟩ | ⟨-, hsame | ⟨-, c', -, hi'⟩ | ⟨u, hu, hi'⟩⟩
    · obtain ⟨rfl, hq⟩ := Thread.mk.inj (Option.some.inj (hi'.symm.trans hi))
      obtain rfl := Option.some.inj hq
      exact (hp i c' _ hop).next r
    · exact hp i c q (hsame.symm.trans hi)
    · obtain ⟨rfl, hq⟩ := Thread.mk.inj (Option.some.inj (hi'.symm.trans hi))
      obtain rfl := Option.some.inj hq
      exact stage_prog c'
    · cases (Thread.mk.inj (Option.some.inj (hi'.symm.trans hi))).2

/-- **One step.** -/
theorem recorded_step {a : Step} (h : step unique p a = some p') (hp : Staged p) :
    Recorded ⟨p, a, p'⟩ ↔ Unhindered unique ⟨p, a, p'⟩ := by
  refine forall_congr' fun x => forall_congr' fun hx => ?_
  -- a statement of a call that has an output
  have hx : due ⟨p, a, p'⟩ = some x := hx
  unfold due at hx
  split at hx
  · next i b ha =>
      obtain rfl : a = .call (.step i b) := ha
      obtain ⟨c, o, k, r, hi, hhandle, hthreads⟩ := @Pool.step_step _ _ _ _ _ _ _ prog _ _ _ _ _ h
      have hi' : p'.threads[i]? = some ⟨c, some (k r)⟩ := by
        rw [hthreads, List.getElem?_set_self (List.getElem?_eq_some_iff.mp hi).1]
      split at hx
      · next c' o' k' hi'' =>
          obtain ⟨rfl, hq⟩ := Thread.mk.inj (Option.some.inj (hi.symm.trans hi''))
          cases hq
          split at hx
          · next hdue =>
              obtain rfl := Option.some.inj hx
              rw [← meets_iff (hp i c _ hi) hhandle hdue]
              constructor
              · exact fun hall => hall _ hi'
              · intro hmeets q hq
                obtain ⟨-, hq⟩ := Thread.mk.inj (Option.some.inj (hi'.symm.trans hq))
                obtain rfl := Option.some.inj hq
                exact hmeets
          · cases hx
      · cases hx
  · cases hx

/-- Nobody has called, and the tables are as they may be. -/
def start (w : World) : Sys := { state := w, threads := [] }

theorem recorded_iff_of_mem {w : World} {ts : List (Transition Sys Step)} (hr : Run (step unique) (start w) ts p')
    {t : Transition Sys Step} (ht : t ∈ ts) : Recorded t ↔ Unhindered unique t := by
  have hstaged : ∀ t ∈ ts, Staged t.pre ∧ Staged t.post :=
    hr.invariant_of_step (I := Staged) (fun h hp => staged_step h hp) fun i c q hi => by cases hi
  exact recorded_step (hr.step_of_mem ht) (hstaged t ht).1

/-- **The record of predictions.** In every run, each call whose adapter returns an output goes on to make exactly one
fact of its own and succeeds, exactly if each of its statements is unhindered: there is a fact service, no fact of
the department carries the call's idempotency key when it looks, the model's identifier is that of an industrial
object, and the table takes the row. -/
theorem recorded_iff {w : World} {ts : List (Transition Sys Step)} (hr : Run (step unique) (start w) ts p') :
    (∀ t ∈ ts, Recorded t) ↔ ∀ t ∈ ts, Unhindered unique t :=
  forall_congr' fun _ => forall_congr' fun ht => recorded_iff_of_mem hr ht

/-! ### Three runs -/

/-- A model with a published version, in a department with a user, and the keys of the industrial objects. -/
def world (objects : List Uuid) : World where
  tables := { models := .ofList [("m", { status := .published, currentVersionId := some "v" })]
              versions := .ofList [("v", { modelId := "m", version := 1, status := .published })] }
  facts := { departments := ["dep"], users := ["u"], objects := objects }

/-- The service of the user. -/
def ofUser : ModelService := { departmentId := "dep", factService := some { actorId := some "u" } }

/-- A prediction, from its call to its end, with both readings of the clock alike. -/
def prediction (i : Nat) (factId : Uuid) : List Step :=
  [.call (.call (.predict ofUser "m" [])), .call (.step i {}), .call (.step i {}), .call (.step i {}),
   .call (.step i { output := .ok ⟨∅, .null, 0⟩ }), .call (.step i {}), .call (.step i {}),
   .call (.step i { fact := { id := factId } })]

/-- An industrial object has the identifier of the model. -/
def once : List (Transition Sys Step) := play (step true) (start (world ["m"])) (prediction 0 "f")

/-- None has. -/
def unlinked : List (Transition Sys Step) := play (step true) (start (world ["o"])) (prediction 0 "f")

/-- Two predictions at one reading of the clock. -/
def twice : List (Transition Sys Step) :=
  play (step true) (start (world ["m"])) (prediction 0 "f" ++ prediction 1 "g")

theorem recorded_once : (once.map (fun t => t.post.state.facts.facts.keys)).getLast? = some ["f"] ∧
    ∀ t ∈ once, Recorded t :=
  ⟨by decide +kernel, (recorded_iff (play_run _ _)).mpr (by decide +kernel)⟩

theorem not_recorded : (¬ ∀ t ∈ unlinked, Recorded t) ∧ ¬ ∀ t ∈ twice, Recorded t := by
  constructor
  · intro hall
    have hhindered : ∃ t ∈ unlinked, ¬ Unhindered true t := by decide +kernel
    obtain ⟨t, ht, hnot⟩ := hhindered
    exact hnot ((recorded_iff_of_mem (play_run _ _) ht).mp (hall t ht))
  · intro hall
    have hhindered : ∃ t ∈ twice, ¬ Unhindered true t := by decide +kernel
    obtain ⟨t, ht, hnot⟩ := hhindered
    exact hnot ((recorded_iff_of_mem (play_run _ _) ht).mp (hall t ht))

end Irip.Models.Execution
