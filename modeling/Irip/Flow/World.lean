import Irip.Flow.Params
import Irip.Flow.System

/-!
# `Flow.World` — one call at a time, with deterministic components

For the question what a run comes to, the engine is looked at alone: one call after the other, a database
that commits every statement, a clock whose readings increase, and a registry and a runner that either
answer as a function of what they are asked or fail.
-/

namespace Irip.Flow

open Prog (Ok lift)
open Table (Update update getElem?_update update_last)

/-! ## Scenarios -/

/-- What a replay keeps: the version, the inputs, the components, and what JSONB makes of a value. -/
structure Scenario where
  version : FlowDefinitionVersion
  snapshot : JsonDict := ∅
  latest : String → ComponentManifest
  runner : ComponentManifest → JsonDict → ComponentResult
  jsonb : Json → Json := id

/-- The state and the last reading of the clock. -/
structure World where
  state : State
  clock : Time := 0

/-- The semantics of the operations in a scenario. A component that does not fail answers as the scenario
says; whether it fails is up to the surroundings. -/
def Scenario.handle (S : Scenario) : (o : Op) → Answer → World → Option (Res o × World)
  | .now, a, w => if w.clock < a.now then some (a.now, { w with clock := a.now }) else none
  | .getLatest name, a, w => some (a.manifest.map (fun _ => S.latest name), w)
  | .runComponent m params, a, w => some (a.result.map (fun _ => S.runner m params), w)
  | .updateExecution e values, a, w =>
    (Flow.handle S.jsonb (.updateExecution e values) { a with commit := .ok () } w.state).map
      (fun p => (p.1, { w with state := p.2 }))
  | o, a, w => (Flow.handle S.jsonb o a w.state).map (fun p => (p.1, { w with state := p.2 }))

/-- The relation. -/
abbrev Scenario.sem (S : Scenario) : (o : Op) → World → Res o → World → Prop := Pool.semOf S.handle

/-! ## Operations -/

section Operations

variable {S : Scenario} {w w' : World}

theorem sem_now {t : Time} (h : S.sem .now w t w') : w.clock < t ∧ w' = { w with clock := t } := by
  obtain ⟨a, h⟩ := h
  simp only [Scenario.handle] at h
  split at h
  · next hlt =>
      obtain ⟨rfl, rfl⟩ := answer_inj h
      exact ⟨hlt, rfl⟩
  · cases h

theorem sem_selectRun {run : RunId} {found : Option FlowRun} (h : S.sem (.selectRun run) w found w') :
    found = w.state.runs[run]? ∧ w' = w := by
  obtain ⟨a, h⟩ := h
  obtain ⟨rfl, rfl⟩ := answer_inj h
  exact ⟨rfl, rfl⟩

theorem sem_selectVersion {v : VersionId} {found : Option FlowDefinitionVersion}
    (h : S.sem (.selectVersion v) w found w') : found = w.state.versions[v]? ∧ w' = w := by
  obtain ⟨a, h⟩ := h
  obtain ⟨rfl, rfl⟩ := answer_inj h
  exact ⟨rfl, rfl⟩

theorem sem_updateRun {run : RunId} {values : RunValues} {r : Unit} (h : S.sem (.updateRun run values) w r w') :
    w' = { w with state := { w.state with runs := update w.state.runs [run] values.stmt } } := by
  obtain ⟨a, h⟩ := h
  obtain ⟨_, rfl⟩ := answer_inj h
  rfl

theorem sem_updateJobStatus {j : Jobs.JobId} {status : String} {r : Unit}
    (h : S.sem (.updateJobStatus j status) w r w') :
    ∃ jobs, w' = { w with state := { w.state with jobs := jobs } } := by
  obtain ⟨a, h⟩ := h
  obtain ⟨_, rfl⟩ := answer_inj h
  exact ⟨_, rfl⟩

theorem sem_insertExecution {run : RunId} {node : String} {e : ExecutionId}
    (h : S.sem (.insertExecution run node) w e w') :
    e = w.state.executions.length ∧
      w' = { w with state := { w.state with
        executions := w.state.executions ++ [{ flowRunId := run, nodeId := node }] } } := by
  obtain ⟨a, h⟩ := h
  obtain ⟨rfl, rfl⟩ := answer_inj h
  exact ⟨rfl, rfl⟩

theorem sem_updateExecution {e : ExecutionId} {values : ExecutionValues} {r : Except Exn Unit}
    (h : S.sem (.updateExecution e values) w r w') :
    r = .ok () ∧ w' = { w with state := { w.state with
      executions := update w.state.executions [e] (values.stmt S.jsonb) } } := by
  obtain ⟨a, h⟩ := h
  obtain ⟨rfl, rfl⟩ := answer_inj h
  exact ⟨rfl, rfl⟩

theorem sem_newEvent {svc : ServiceId} {run : RunId} {e : EventId} (h : S.sem (.newEvent svc run) w e w') :
    ∃ events cancelEvents,
      w' = { w with state := { w.state with events := events, cancelEvents := cancelEvents } } := by
  obtain ⟨a, h⟩ := h
  obtain ⟨_, rfl⟩ := answer_inj h
  exact ⟨_, _, rfl⟩

theorem sem_isSet {e : EventId} {b : Bool} (h : S.sem (.isSet e) w b w') : w' = w := by
  obtain ⟨a, h⟩ := h
  obtain ⟨_, rfl⟩ := answer_inj h
  rfl

theorem sem_getLatest {name : String} {found : Except Exn ComponentManifest}
    (h : S.sem (.getLatest name) w found w') :
    ((∃ e, found = .error e) ∨ found = .ok (S.latest name)) ∧ w' = w := by
  obtain ⟨a, h⟩ := h
  obtain ⟨rfl, rfl⟩ := answer_inj h
  cases a.manifest with
  | error e => exact ⟨.inl ⟨e, rfl⟩, rfl⟩
  | ok m => exact ⟨.inr rfl, rfl⟩

theorem sem_runComponent {m : ComponentManifest} {params : JsonDict} {ran : Except Exn ComponentResult}
    (h : S.sem (.runComponent m params) w ran w') :
    ((∃ e, ran = .error e) ∨ ran = .ok (S.runner m params)) ∧ w' = w := by
  obtain ⟨a, h⟩ := h
  obtain ⟨rfl, rfl⟩ := answer_inj h
  cases a.result with
  | error e => exact ⟨.inl ⟨e, rfl⟩, rfl⟩
  | ok r => exact ⟨.inr rfl, rfl⟩

/-- The rows a WHERE clause selects, in table order. -/
def World.select (w : World) (q : ExecutionQuery) : List FlowNodeExecution :=
  w.state.executions.filter q.selects

theorem filterMap_getElem?_range {α : Type} (l : List α) :
    (List.range l.length).filterMap (fun i => l[i]?) = l := by
  induction l with
  | nil => rfl
  | cons x xs ih =>
    have hhead : (List.range (x :: xs).length).filterMap (fun i => (x :: xs)[i]?)
        = x :: (List.range xs.length).filterMap (fun i => xs[i]?) := by
      rw [List.length_cons, List.range_succ_eq_map, List.filterMap_cons, List.filterMap_map]
      rfl
    rw [hhead, ih]

theorem rowsAt_matching (s : State) (q : ExecutionQuery) :
    s.rowsAt (s.matching q) = s.executions.filter q.selects := by
  unfold State.rowsAt State.matching
  rw [List.filterMap_filter]
  conv_rhs => rw [← filterMap_getElem?_range s.executions, List.filter_filterMap]
  congr 1
  funext i
  cases s.executions[i]? with
  | none => rfl
  | some row => by_cases hrow : q.selects row = true <;> simp [Option.filter, hrow]

theorem sem_selectExecutions {q : ExecutionQuery} {rows : List FlowNodeExecution}
    (h : S.sem (.selectExecutions q) w rows w') :
    rows.Perm (w.select q) ∧ (q.byStartedAt = true → rows.Pairwise (fun a b => startedLe a b = true)) ∧
      w' = w := by
  obtain ⟨a, h⟩ := h
  simp only [Scenario.handle, Flow.handle] at h
  split at h
  · next hmay =>
      obtain ⟨rfl, rfl⟩ := answer_inj h
      refine ⟨?_, hmay.2, rfl⟩
      have hperm : (w.state.rowsAt a.rows).Perm (w.state.rowsAt (w.state.matching q)) :=
        hmay.1.filterMap _
      rwa [rowsAt_matching] at hperm
  · cases h

end Operations

/-! ## Programs -/

/-- Run alone from `w`, the program can only end in `Q`. -/
abbrev Scenario.Does (S : Scenario) {α : Type} (Q : Except Exn α → World → Prop) (p : M α) (w : World) : Prop :=
  Ok S.sem Eq (fun _ _ _ _ => True) Q p w

section Programs

variable {S : Scenario} {α β : Type} {Q : Except Exn α → World → Prop} {w : World}

theorem does_ask {o : Op} {f : Res o → M α} (h : ∀ r w', S.sem o w r w' → S.Does Q (f r) w') :
    S.Does Q (ask o >>= f) w := by
  refine Ok.perform_bind ?_
  rintro _ rfl r w' hsem
  exact ⟨trivial, h r w' hsem⟩

theorem does_ret {a : α} (h : Q (.ok a) w) : S.Does Q (.ret a) w := by
  rintro _ rfl
  exact h

theorem does_raise {e : Exn} (h : Q (.error e) w) : S.Does Q (.raise e) w := by
  rintro _ rfl
  exact h

theorem does_bind {P : Except Exn β → World → Prop} {p : M β} {f : β → M α} (hp : S.Does P p w)
    (hf : ∀ a w', P (.ok a) w' → S.Does Q (f a) w') (he : ∀ e w', P (.error e) w' → Q (.error e) w') :
    S.Does Q (p >>= f) w :=
  Ok.bind (fun _ => rfl) hp hf he

theorem does_updateExecution {e : ExecutionId} {values : ExecutionValues} {f : Unit → M α}
    (h : S.Does Q (f ()) { w with state := { w.state with
      executions := update w.state.executions [e] (values.stmt S.jsonb) } }) :
    S.Does Q (updateExecution e values >>= f) w := by
  have hdone : S.Does Q (ask (.updateExecution e values) >>= fun done => lift done >>= f) w := by
    refine does_ask fun r w' hsem => ?_
    obtain ⟨rfl, rfl⟩ := sem_updateExecution hsem
    exact h
  exact hdone

end Programs

/-! ## Parts of a call -/

/-- The row an attempt at a node leaves. -/
def attempt (run : RunId) (node : FlowNode) (t : Time) (status : NodeStatus) (summary : JsonDict) :
    FlowNodeExecution :=
  { flowRunId := run, nodeId := node.nodeId, status := status, outputSummary := summary, startedAt := some t }

/-- The world with one more row, at a later reading of the clock. -/
def World.push (w : World) (row : FlowNodeExecution) (clock : Time) : World :=
  { state := { w.state with executions := w.state.executions ++ [row] }, clock := clock }

/-- What `_execute_single_node` returns when the component does. -/
def ComponentResult.nodeResult (result : ComponentResult) : NodeResult :=
  { status := .succeeded, outputs := result.outputs, outputSummary := serializeOutputSummary result }

section Parts

variable {S : Scenario} {α : Type} {w : World}

/-- The ways an attempt at a node can end: it adds one row, failed or succeeded. -/
def Scenario.Attempted (S : Scenario) (run : RunId) (node : FlowNode) (inputs : JsonDict) (w : World) :
    Except Exn NodeResult → World → Prop
  | .error _, _ => False
  | .ok result, w' => ∃ t clock, w.clock < t ∧ t ≤ clock ∧
      ((result = { status := .failed } ∧ w' = w.push (attempt run node t .failed ∅) clock) ∨
       ∃ params, mergedParams node (S.latest node.componentName) inputs = .ok params ∧
         result = (S.runner (S.latest node.componentName) params).nodeResult ∧
         w' = w.push (attempt run node t .succeeded
           (storedSummary S.jsonb (S.runner (S.latest node.componentName) params))) clock)

theorem does_update_push {Q : Except Exn α → World → Prop} (row : FlowNodeExecution) (clock : Time)
    {values : ExecutionValues} {f : Unit → M α}
    (h : S.Does Q (f ()) (w.push ((values.stmt S.jsonb).apply row) clock)) :
    S.Does Q (updateExecution w.state.executions.length values >>= f) (w.push row clock) := by
  apply does_updateExecution
  unfold World.push
  rw [update_last]
  exact h

theorem does_tryNode (run : RunId) (node : FlowNode) (inputs : JsonDict) (t : Time) :
    S.Does
      (fun
        | .error _, w' => w' = w.push (attempt run node t .running ∅) t
        | .ok result, w' => ∃ params clock, t ≤ clock ∧
            mergedParams node (S.latest node.componentName) inputs = .ok params ∧
            result = (S.runner (S.latest node.componentName) params).nodeResult ∧
            w' = w.push (attempt run node t .succeeded
              (storedSummary S.jsonb (S.runner (S.latest node.componentName) params))) clock)
      (tryNode node inputs w.state.executions.length) (w.push (attempt run node t .running ∅) t) := by
  refine does_ask fun found w₁ hsem => ?_
  obtain ⟨hfound, rfl⟩ := sem_getLatest hsem
  rcases hfound with ⟨e, rfl⟩ | rfl
  · exact does_raise rfl
  cases hparams : mergedParams node (S.latest node.componentName) inputs with
  | error e =>
    simp only [Prog.lift_ok, Prog.ret_bind, hparams]
    exact does_raise rfl
  | ok params =>
    simp only [Prog.lift_ok, Prog.ret_bind, hparams]
    refine does_ask fun ran w₂ hsem => ?_
    obtain ⟨hran, rfl⟩ := sem_runComponent hsem
    rcases hran with ⟨e, rfl⟩ | rfl
    · exact does_raise rfl
    refine does_ask fun clock w₃ hsem => ?_
    obtain ⟨hclock, rfl⟩ := sem_now hsem
    refine does_update_push (attempt run node t .running ∅) clock ?_
    exact does_ret ⟨params, clock, le_of_lt hclock, rfl, rfl, rfl⟩

/-- **What `_execute_single_node` does.** -/
theorem does_executeSingleNode (run : RunId) (node : FlowNode) (inputs : JsonDict) :
    S.Does (S.Attempted run node inputs w) (executeSingleNode run node inputs) w := by
  refine does_ask fun t w₁ hnow => ?_
  obtain ⟨ht, rfl⟩ := sem_now hnow
  refine does_ask fun e w₂ hins => ?_
  obtain ⟨rfl, rfl⟩ := sem_insertExecution hins
  refine does_update_push (w := w) { flowRunId := run, nodeId := node.nodeId } t ?_
  refine Ok.rescue (fun _ => rfl) (does_tryNode (w := w) run node inputs t) ?_ ?_
  · rintro e w' rfl
    refine does_ask fun clock w₃ hsem => ?_
    obtain ⟨hclock, rfl⟩ := sem_now hsem
    refine does_update_push (attempt run node t .running ∅) clock ?_
    exact does_ret ⟨t, clock, ht, le_of_lt hclock, .inl ⟨rfl, rfl⟩⟩
  · rintro result w' ⟨params, clock, hclock, hparams, hresult, hw⟩
    exact ⟨t, clock, ht, hclock, .inr ⟨params, hparams, hresult, hw⟩⟩

/-- What `_finalize_run` and `_update_job_status` leave behind. -/
structure Finished (run : RunId) (versionDigest : String) (status : RunStatus) (summaries : List NodeSummary)
    (w w' : World) : Prop where
  executions : w'.state.executions = w.state.executions
  versions : w'.state.versions = w.state.versions
  clock : w.clock ≤ w'.clock
  row : ∀ r, w.state.runs[run]? = some r → ∃ r', w'.state.runs[run]? = some r' ∧
    r'.pinned = r.pinned ∧ r'.status = status ∧
    (status = .succeeded → r'.outputDigest = some (computeOutputDigest versionDigest r.inputSnapshot summaries))

theorem does_finalDigest (run : RunId) (status : RunStatus) (versionDigest : String)
    (summaries : List NodeSummary) :
    S.Does
      (fun
        | .error _, _ => False
        | .ok digest, w' => w' = w ∧ (status = .succeeded → digest =
            (w.state.runs[run]?).map (fun r => computeOutputDigest versionDigest r.inputSnapshot summaries)))
      (finalDigest run status versionDigest summaries) w := by
  unfold finalDigest
  by_cases hstatus : status = .succeeded
  · rw [if_pos hstatus]
    refine does_ask fun found w₁ hsem => ?_
    obtain ⟨rfl, rfl⟩ := sem_selectRun hsem
    exact does_ret ⟨rfl, fun _ => rfl⟩
  · rw [if_neg hstatus]
    exact does_ret ⟨rfl, fun h => absurd h hstatus⟩

/-- **What `_finalize_run` and `_update_job_status` do.** -/
theorem does_finish (run : RunId) (jobId : Option Jobs.JobId) (versionDigest : String) (status : RunStatus)
    (summaries : List NodeSummary) :
    S.Does (fun _ w' => Finished run versionDigest status summaries w w')
      (finish run jobId versionDigest status summaries) w := by
  refine does_bind (P := fun _ w' => Finished run versionDigest status summaries w w') ?_ ?_ (fun _ _ h => h)
  · refine does_bind (does_finalDigest run status versionDigest summaries) ?_ (fun _ _ h => h.elim)
    rintro digest w' ⟨rfl, hdigest⟩
    refine does_ask fun t w₁ hsem => ?_
    obtain ⟨ht, rfl⟩ := sem_now hsem
    refine does_ask (f := .ret) fun _ w₂ hsem => ?_
    obtain rfl := sem_updateRun hsem
    refine does_ret ⟨rfl, rfl, le_of_lt ht, fun r hr => ?_⟩
    have hrow : ∀ u : Update FlowRun, (update w'.state.runs [run] u)[run]? = some (u.apply r) := by
      intro u
      rw [getElem?_update, hr, Option.map_some, if_pos (List.mem_singleton.mpr rfl)]
    refine ⟨_, hrow _, rfl, rfl, ?_⟩
    intro hstatus
    show digest.or r.outputDigest = _
    rw [hdigest hstatus, hr]
    rfl
  · intro _ w' h
    unfold updateJobStatus
    cases jobId with
    | none => exact does_ret h
    | some j =>
      refine does_ask (f := .ret) fun _ w₁ hsem => ?_
      obtain ⟨jobs, rfl⟩ := sem_updateJobStatus hsem
      exact does_ret ⟨h.executions, h.versions, h.clock, h.row⟩

theorem does_loadRun {Q : Except Exn α → World → Prop} {run : RunId} {r : FlowRun} {v : FlowDefinitionVersion}
    {f : FlowRun × FlowDefinitionVersion → M α} (hr : w.state.runs[run]? = some r)
    (hv : w.state.versions[r.flowVersionId]? = some v) (h : S.Does Q (f (r, v)) w) :
    S.Does Q (loadRun run >>= f) w := by
  refine does_ask fun found w₁ hsem => ?_
  obtain ⟨rfl, rfl⟩ := sem_selectRun hsem
  rw [hr]
  refine does_ask fun version w₂ hsem => ?_
  obtain ⟨rfl, rfl⟩ := sem_selectVersion hsem
  rw [hv]
  exact h

end Parts

end Irip.Flow
