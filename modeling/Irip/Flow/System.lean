import Irip.Flow.Engine

/-!
# `Flow.System` — the engine calls of all service instances, interleaved

A run of the system is a run of the pool of calls: a new call, the next operation of a call, or the death of
the process of a call. Several instances of the service (API processes and workers) may work on one run.
-/

namespace Irip.Flow

open Runs (Run Transition)
open Table (Update update getElem?_update)

/-! ## The system -/

/-- The calls and the state they share. -/
abbrev System := Pool Call Op Res Exn Reply State

/-- What happens next. -/
abbrev Action := Pool.Action Call Answer

/-- What the surroundings have answered a call. -/
abbrev Log := List (Prog.Event Op Res)

/-- The step function. -/
def step (jsonb : Json → Json) : System → Action → Option System := Pool.step Call.prog (handle jsonb)

/-- No call has been made yet. -/
def start (s : State) : System := { state := s, threads := [] }

/-! ## Operations of a call -/

/-- The run a call works on. -/
def Call.run : Call → RunId
  | .execute _ run => run
  | .resume _ run => run
  | .cancel _ run => run
  | .retryNode _ run _ => run

/-- The call is a `cancel`. -/
def Call.IsCancel : Call → Prop
  | .cancel _ _ => True
  | _ => False

/-- The operations a call may issue. -/
def Call.MayIssue (c : Call) : Op → Prop
  | .updateRun run values => run = c.run ∧ (c.IsCancel → values.status = some .cancelled)
  | .insertExecution run _ => run = c.run ∧ ¬ c.IsCancel
  | .updateExecution _ _ => ¬ c.IsCancel
  | _ => True

section MayIssue

open Prog (Issues)

variable {c : Call}

theorem issues_executeSingleNode (hc : ¬ c.IsCancel) (node : FlowNode) (inputs : JsonDict) :
    (executeSingleNode c.run node inputs).Issues c.MayIssue := by
  have hupdate : ∀ e v, (updateExecution e v).Issues c.MayIssue := fun e v =>
    .bind (.perform hc) (fun _ => .lift _)
  refine .bind (.perform trivial) fun now => .bind (.perform ⟨rfl, hc⟩) fun e => .bind (hupdate _ _) fun _ => ?_
  refine .rescue ?_ fun _ => .bind (.perform trivial) fun _ => .bind (hupdate _ _) fun _ => trivial
  refine .bind (.perform trivial) fun _ => .bind (.lift _) fun _ => .bind (.lift _) fun _ => ?_
  exact .bind (.perform trivial) fun _ => .bind (.lift _) fun _ => .bind (.perform trivial) fun _ =>
    .bind (hupdate _ _) fun _ => trivial

theorem issues_finish (hc : ¬ c.IsCancel) (jobId : Option Jobs.JobId) (digest : String) (status : RunStatus)
    (summaries : List NodeSummary) : (finish c.run jobId digest status summaries).Issues c.MayIssue :=
  issues_finish_of trivial trivial (fun _ => ⟨rfl, fun h => absurd h hc⟩) (fun _ _ => trivial) jobId digest status
    summaries

theorem issues_runNodeLoop (hc : ¬ c.IsCancel) (ctx : LoopContext) (hrun : ctx.run = c.run)
    (order : List String) (outputs : Dict String JsonDict) (summaries : Dict String NodeSummary) :
    (runNodeLoop ctx order outputs summaries).Issues c.MayIssue := by
  induction order generalizing outputs summaries with
  | nil =>
    unfold runNodeLoop
    rw [hrun]
    exact issues_finish hc _ _ _ _
  | cons id rest ih =>
    unfold runNodeLoop
    rw [hrun]
    refine .bind (.perform trivial) fun cancelled => ?_
    split
    · exact issues_finish hc _ _ _ _
    · split
      · exact ih _ _
      · cases ctx.nodeMap.get? id with
        | none => trivial
        | some node =>
          refine .bind (issues_executeSingleNode hc _ _) fun result => ?_
          dsimp only
          split
          · exact issues_finish hc _ _ _ _
          · exact ih _ _

theorem issues_loadRun : (loadRun c.run).Issues c.MayIssue := by
  refine .bind (.perform trivial) fun found => ?_
  cases found with
  | none => trivial
  | some r =>
    refine .bind (.perform trivial) fun version => ?_
    cases version with
    | none => trivial
    | some v => trivial

theorem issues_resume (hc : ¬ c.IsCancel) (service : ServiceId) :
    (resume service c.run).Issues c.MayIssue := by
  refine .bind issues_loadRun fun loaded => .bind (.perform trivial) fun _ => .bind (.perform trivial) fun _ => ?_
  refine .bind (.perform ⟨rfl, fun h => absurd h hc⟩) fun _ => .bind (.lift _) fun _ => ?_
  exact .bind (.perform trivial) fun _ => issues_runNodeLoop hc _ rfl _ _ _

/-- **A call writes its own run only**, and `cancel` writes no other status than `cancelled`. -/
theorem issues_prog (c : Call) : c.prog.Issues c.MayIssue := by
  cases c with
  | execute svc run =>
    refine .bind (.bind (issues_loadRun (c := .execute svc run)) fun loaded => ?_) fun _ => trivial
    refine .bind (.perform trivial) fun _ => .bind (.perform ⟨rfl, fun h => h.elim⟩) fun _ => ?_
    refine .bind (.perform trivial) fun _ => .bind (.lift _) fun _ => ?_
    exact issues_runNodeLoop (c := .execute svc run) (fun h => h) _ rfl _ _ _
  | resume svc run =>
    exact .bind (issues_resume (c := .resume svc run) (fun h => h) svc) fun _ => trivial
  | cancel svc run =>
    refine .bind (.bind (.perform trivial) fun _ => .bind (.perform trivial) fun found => ?_) fun _ => trivial
    cases found with
    | none => trivial
    | some r =>
      dsimp only
      split
      · exact .bind (.perform trivial) fun _ => .bind (.perform ⟨rfl, fun _ => rfl⟩) fun _ => trivial
      · trivial
  | retryNode svc run node =>
    have hc : ¬ (Call.retryNode svc run node).IsCancel := fun h => h
    refine .bind (.bind (issues_loadRun (c := .retryNode svc run node)) fun loaded => ?_) fun _ => trivial
    refine .bind ?_ fun _ => .bind (.perform ⟨rfl, fun h => h.elim⟩) fun _ => ?_
    · unfold checkRetry
      split
      · trivial
      · refine .bind (.perform trivial) fun rows => ?_
        split
        · trivial
        · split <;> trivial
    refine .bind (.perform trivial) fun _ => .bind (.perform trivial) fun _ => ?_
    refine .bind (issues_executeSingleNode hc _ _) fun result => .bind ?_ fun _ => ?_
    · unfold afterRetry
      split
      · refine .bind (.perform trivial) fun _ => ?_
        split
        · exact .bind (.perform trivial) fun _ => issues_finish hc _ _ _ _
        · exact issues_resume hc svc
      · exact issues_finish hc _ _ _ _
    · refine .bind (.perform trivial) fun rows => ?_
      split <;> trivial

end MayIssue

/-! ## The status of a run -/

theorem runStatus?_update {s s' : State} {i : RunId} {v : RunValues}
    (h : s'.runs = update s.runs [i] v.stmt) (r : RunId) :
    s'.runStatus? r = (s.runStatus? r).map (fun st => if r = i then v.status.getD st else st) := by
  unfold State.runStatus?
  rw [h, getElem?_update, Option.map_map, Option.map_map]
  congr 1
  funext row
  by_cases hr : r = i
  · subst hr
    simp [Update.apply, RunValues.stmt]
  · simp [hr]

variable {jsonb : Json → Json}

/-- **What a step does to the status of a run.** -/
theorem runStatus?_step {p p' : System} {act : Action}
    (h : step jsonb p act = some p') (r : RunId) :
    p'.state.runStatus? r = p.state.runStatus? r ∨
    ∃ i a v st, act = .step i a ∧ p.next? i = some (.updateRun r v) ∧ v.status = some st ∧
      p'.state.runStatus? r = (p.state.runStatus? r).map (fun _ => st) := by
  cases act with
  | call c => exact .inl (congrArg (fun s => s.runStatus? r) (Pool.state_of_call h))
  | kill i => exact .inl (congrArg (fun s => s.runStatus? r) (Pool.state_of_kill h))
  | step i a =>
    obtain ⟨c, o, k, res, hi, hhandle, _⟩ := Pool.step_step h
    have hnext : p.next? i = some o := by
      unfold Pool.next?
      rw [hi]
    rcases runs_handle hhandle with hsame | ⟨j, v, rfl, hruns⟩
    · left
      unfold State.runStatus?
      rw [hsame]
    · have hst := runStatus?_update hruns r
      by_cases hr : r = j
      · subst hr
        cases hv : v.status with
        | none =>
          left
          rw [hst, hv]
          cases p.state.runStatus? r <;> simp
        | some st =>
          right
          refine ⟨i, a, v, st, rfl, hnext, hv, ?_⟩
          rw [hst, hv]
          simp
      · left
        rw [hst]
        cases p.state.runStatus? r <;> simp [hr]

/-! ## The flow of a run -/

/-- What never changes in the row of a run. -/
def FlowRun.pinned (r : FlowRun) : VersionId × Option Jobs.JobId × JsonDict :=
  (r.flowVersionId, r.jobId, r.inputSnapshot)

/-- The version a run executes. -/
def State.version? (s : State) (run : RunId) : Option FlowDefinitionVersion :=
  (s.runs[run]?).bind (fun r => s.versions[r.flowVersionId]?)

/-- The same versions, and runs pinned to the same version, job and inputs. -/
def SameFlows (s s' : State) : Prop :=
  s'.versions = s.versions ∧ ∀ i : RunId, (s'.runs[i]?).map FlowRun.pinned = (s.runs[i]?).map FlowRun.pinned

theorem sameFlows_handle {o : Op} {a : Answer} {s s' : State} {r : Res o}
    (h : handle jsonb o a s = some (r, s')) : SameFlows s s' := by
  have hversions : s'.versions = s.versions := by
    cases o with
    | selectExecutions q =>
      simp only [handle] at h
      split at h
      · obtain ⟨_, rfl⟩ := answer_inj h
        rfl
      · cases h
    | updateExecution e v | setEvent svc i =>
      simp only [handle] at h
      split at h <;> (obtain ⟨_, rfl⟩ := answer_inj h; rfl)
    | _ =>
      obtain ⟨_, rfl⟩ := answer_inj h
      rfl
  refine ⟨hversions, fun i => ?_⟩
  rcases runs_handle h with hsame | ⟨j, v, _, hruns⟩
  · rw [hsame]
  · rw [hruns, getElem?_update, Option.map_map]
    congr 1
    funext row
    by_cases hij : i ∈ [j]
    · simp [hij, Update.apply, RunValues.stmt, FlowRun.pinned]
    · simp [hij]

theorem sameFlows_step {p p' : System} {act : Action}
    (h : step jsonb p act = some p') : SameFlows p.state p'.state := by
  cases act with
  | call c =>
    rw [Pool.state_of_call h]
    exact ⟨rfl, fun _ => rfl⟩
  | kill i =>
    rw [Pool.state_of_kill h]
    exact ⟨rfl, fun _ => rfl⟩
  | step i a =>
    obtain ⟨c, o, k, r, _, hhandle, _⟩ := Pool.step_step h
    exact sameFlows_handle hhandle

/-- The answer agrees with the versions and runs of `s`. -/
def Faithful (s : State) : (o : Op) → Res o → Prop
  | .selectRun i, ans => ans.map FlowRun.pinned = (s.runs[i]?).map FlowRun.pinned
  | .selectVersion x, ans => ans = s.versions[x]?
  | _, _ => True

/-- **What a call reads of a flow is what it was at the start.** -/
theorem faithful_run {p p' : System} {ts : List (Transition System Action)}
    (hrun : Run (step jsonb) p ts p') {i : Nat} :
    ∀ t ∈ ts, ∀ ev ∈ Pool.event? (handle jsonb) i t.pre t.act, Faithful p.state ev.op ev.res := by
  intro t ht ev hev
  have hsame : SameFlows p.state t.pre.state :=
    (hrun.invariant_of_step (I := fun q => SameFlows p.state q.state)
      (fun h hI => by
        have hs := sameFlows_step h
        exact ⟨hs.1.trans hI.1, fun j => (hs.2 j).trans (hI.2 j)⟩)
      ⟨rfl, fun _ => rfl⟩ t ht).1
  have hop : ∃ a s', handle jsonb ev.op a t.pre.state = some (ev.res, s') := by
    cases hact : t.act with
    | call c | kill j => simp [hact, Pool.event?] at hev
    | step j a =>
      rw [hact] at hev
      simp only [Pool.event?, Option.mem_def] at hev
      split at hev
      · split at hev
        · obtain ⟨⟨res, s'⟩, hh, rfl⟩ := Option.map_eq_some_iff.mp hev
          exact ⟨a, s', hh⟩
        · cases hev
      · cases hev
  obtain ⟨a, s', hh⟩ := hop
  obtain ⟨o, res⟩ := ev
  cases o with
  | selectRun j =>
    obtain ⟨rfl, _⟩ := answer_inj hh
    exact hsame.2 j
  | selectVersion x =>
    obtain ⟨rfl, _⟩ := answer_inj hh
    show t.pre.state.versions[x]? = _
    rw [hsame.1]
  | _ => trivial

/-! ## Fixtures -/

/-- A run of a version, not started yet. -/
def freshState (v : FlowDefinitionVersion) : State := { runs := [{ flowVersionId := 0 }], versions := [v] }

/-- A flow of one node. -/
def loadVersion : FlowDefinitionVersion :=
  { flowDefinitionId := 0, version := 1,
    nodes := [{ nodeId := "load", componentName := "csv", componentVersion := "1.0.0" }],
    edges := [], randomSeed := 0, digest := "d", publishedAt := 0 }

/-- Any component succeeds, without outputs. -/
def succeeds : Answer := { manifest := .ok { name := "csv" }, result := .ok { outputs := ∅, summary := "" } }

/-- Any component fails. -/
def fails : Answer := { manifest := .ok { name := "csv" }, result := .error (.other "RuntimeError" "boom") }

/-- Call `i` performs its next `n` operations. -/
def go (i n : Nat) (a : Answer) : List Action := List.replicate n (.step i a)

end Irip.Flow
