import Irip.Flow.NodeOnce
import Irip.Flow.Validation

/-!
# `Flow.Record` — when the record of a run is consistent

The columns `status`, `output_digest` and `completed_at` of a run, looked at between finished calls. The
digest and the completion time are only ever written, never cleared, so what an earlier attempt left stays
in the record when a later one fails or is broken off.
-/

namespace Irip.Flow

open Prog (Ok lift Event)
open Runs (Run play play_run)
open Table (Update update getElem?_update update_last)

/-! ## Consistency -/

/-- The run is over. -/
def RunStatus.IsFinal (st : RunStatus) : Prop := st ∈ [RunStatus.succeeded, .failed, .cancelled]

instance : DecidablePred RunStatus.IsFinal := fun st =>
  inferInstanceAs (Decidable (st ∈ [RunStatus.succeeded, .failed, .cancelled]))

/-- The record of the run is consistent. -/
structure State.Consistent (s : State) (run : RunId) : Prop where
  digest : ∀ r, s.runs[run]? = some r → (r.outputDigest.isSome = true ↔ r.status = .succeeded)
  nodes : ∀ v, s.version? run = some v → s.runStatus? run = some .succeeded →
    ∀ node ∈ v.nodes, s.HasSucceeded run node.nodeId
  completed : ∀ r, s.runs[run]? = some r → (r.completedAt.isSome = true ↔ r.status.IsFinal)

/-! ## Verdicts -/

/-- The worst a call has met: nothing, a failed attempt at a node, or a statement that broke it off. -/
inductive Verdict where
  | clean
  | failed
  | aborted
deriving DecidableEq

/-- The worse of two. -/
def Verdict.worse : Verdict → Verdict → Verdict
  | .aborted, _ => .aborted
  | _, .aborted => .aborted
  | .failed, _ => .failed
  | _, .failed => .failed
  | .clean, .clean => .clean

@[simp] theorem Verdict.worse_clean (v : Verdict) : v.worse .clean = v := by cases v <;> rfl

@[simp] theorem Verdict.clean_worse (v : Verdict) : Verdict.clean.worse v = v := by cases v <;> rfl

/-- `_execute_single_node` can read the two defaults it takes from the manifest. -/
def ComponentManifest.readable (m : ComponentManifest) : Bool :=
  (manifestDefault m "prompt").isOk && (manifestDefault m "tool_type").isOk

/-- What an answer means for the call. An attempt fails when the component is unknown, has an unreadable
manifest or raises, and when its summary cannot be stored; the two other statements on the row of an
attempt stand outside the `try` block. -/
def eventVerdict : Event Op Res → Verdict
  | ⟨.getLatest _, found⟩ =>
    match found with
    | .ok m => if m.readable then .clean else .failed
    | .error _ => .failed
  | ⟨.runComponent _ _, ran⟩ =>
    match ran with
    | .ok _ => .clean
    | .error _ => .failed
  | ⟨.updateExecution _ values, done⟩ =>
    match done with
    | .ok _ => .clean
    | .error _ => if values.status = .succeeded then .failed else .aborted
  | _ => .clean

/-- The worst answer of a call. -/
def Log.verdict (h : Log) : Verdict := h.foldl (fun v ev => v.worse (eventVerdict ev)) .clean

@[simp] theorem verdict_snoc (h : Log) (ev : Event Op Res) :
    Log.verdict (h ++ [ev]) = (Log.verdict h).worse (eventVerdict ev) := by
  unfold Log.verdict
  rw [List.foldl_append]
  rfl

theorem mergedParams_isOk (node : FlowNode) (m : ComponentManifest) (inputs : JsonDict) :
    (∃ params, mergedParams node m inputs = .ok params) ↔ m.readable = true := by
  unfold mergedParams effectiveParams ComponentManifest.readable
  cases manifestDefault m "prompt" with
  | error e => simp [Except.isOk, Except.toBool, bind, Except.bind]
  | ok prompt =>
    cases manifestDefault m "tool_type" with
    | error e => simp [Except.isOk, Except.toBool, bind, Except.bind]
    | ok toolType => simp [Except.isOk, Except.toBool, bind, Except.bind, pure, Except.pure]

/-! ## Programs -/

section Programs

variable {jsonb : Json → Json} {α β : Type} {Q : Except Exn α → State → Log → Prop} {s : State} {h : Log}

/-- Run alone from `s` with the log `h`, the program can only end in `Q`. -/
abbrev Ends (jsonb : Json → Json) (Q : Except Exn α → State → Log → Prop) (p : M α) (s : State) (h : Log) :
    Prop :=
  Ok (Pool.semOf (Prog.recorded (handle jsonb))) Eq (fun _ _ _ _ => True) (fun out c => Q out c.1 c.2) p (s, h)

theorem ends_ask {o : Op} {f : Res o → M α}
    (H : ∀ r s', Pool.semOf (handle jsonb) o s r s' → Ends jsonb Q (f r) s' (h ++ [⟨o, r⟩])) :
    Ends jsonb Q (ask o >>= f) s h := by
  refine Ok.perform_bind ?_
  rintro _ rfl r ⟨s', h'⟩ ⟨a, hsem⟩
  obtain ⟨⟨r', s''⟩, hhandle, heq⟩ := Option.map_eq_some_iff.mp hsem
  obtain ⟨rfl, hpair⟩ := Prod.mk.inj heq
  obtain ⟨rfl, rfl⟩ := Prod.mk.inj hpair
  exact ⟨trivial, H r' s'' ⟨a, hhandle⟩⟩

theorem ends_answer {o : Op} {f : Res o → M α} {r : Answer → Res o} {t : Answer → State}
    (ho : ∀ a, handle jsonb o a s = some (r a, t a)) (H : ∀ a, Ends jsonb Q (f (r a)) (t a) (h ++ [⟨o, r a⟩])) :
    Ends jsonb Q (ask o >>= f) s h := by
  refine ends_ask ?_
  rintro _ _ ⟨a, hsem⟩
  obtain ⟨rfl, rfl⟩ := answer_inj ((ho a).symm.trans hsem)
  exact H a

theorem ends_perform {o : Op} {Q : Except Exn (Res o) → State → Log → Prop}
    (H : ∀ r s', Pool.semOf (handle jsonb) o s r s' → Q (.ok r) s' (h ++ [⟨o, r⟩])) :
    Ends jsonb Q (ask o) s h := by
  refine Ok.perform ?_
  rintro _ rfl r ⟨s', h'⟩ ⟨a, hsem⟩
  obtain ⟨⟨r', s''⟩, hhandle, heq⟩ := Option.map_eq_some_iff.mp hsem
  obtain ⟨rfl, hpair⟩ := Prod.mk.inj heq
  obtain ⟨rfl, rfl⟩ := Prod.mk.inj hpair
  refine ⟨trivial, ?_⟩
  rintro _ rfl
  exact H r' s'' ⟨a, hhandle⟩

theorem ends_ret {a : α} (H : Q (.ok a) s h) : Ends jsonb Q (.ret a) s h := by
  rintro _ rfl
  exact H

theorem ends_raise {e : Exn} (H : Q (.error e) s h) : Ends jsonb Q (.raise e) s h := by
  rintro _ rfl
  exact H

theorem ends_bind {P : Except Exn β → State → Log → Prop} {p : M β} {f : β → M α} (hp : Ends jsonb P p s h)
    (hf : ∀ a s' h', P (.ok a) s' h' → Ends jsonb Q (f a) s' h')
    (he : ∀ e s' h', P (.error e) s' h' → Q (.error e) s' h') : Ends jsonb Q (p >>= f) s h :=
  Ok.bind (fun _ => rfl) hp (fun a c => hf a c.1 c.2) (fun e c => he e c.1 c.2)

end Programs

/-! ## Parts of a call -/

/-- The state with one more execution row. -/
def State.push (s : State) (row : FlowNodeExecution) : State :=
  { s with executions := s.executions ++ [row] }

theorem hasSucceeded_iff {s : State} {run : RunId} {n : String} :
    s.HasSucceeded run n ↔ ∃ row ∈ s.executions, row.flowRunId = run ∧ row.nodeId = n ∧
      row.status = .succeeded := by
  unfold State.HasSucceeded
  simp only [runRow_eq_some]
  constructor
  · rintro ⟨e, row, ⟨he, hrun⟩, hn, hst⟩
    exact ⟨row, List.mem_of_getElem? he, hrun, hn, hst⟩
  · rintro ⟨row, hrow, hrun, hn, hst⟩
    obtain ⟨e, he⟩ := List.mem_iff_getElem?.mp hrow
    exact ⟨e, row, ⟨he, hrun⟩, hn, hst⟩

theorem hasSucceeded_push {s : State} {row : FlowNodeExecution} {run : RunId} {n : String}
    (hs : s.HasSucceeded run n) : (s.push row).HasSucceeded run n := by
  rw [hasSucceeded_iff] at hs ⊢
  obtain ⟨row', hrow', hrest⟩ := hs
  exact ⟨row', List.mem_append_left _ hrow', hrest⟩

section Parts

variable {jsonb : Json → Json} {α : Type} {s : State} {h : Log} {run : RunId}

theorem ends_updateExecution {Q : Except Exn α → State → Log → Prop} {r : FlowNodeExecution}
    {values : ExecutionValues} {f : Unit → M α}
    (hok : Ends jsonb Q (f ()) (s.push ((values.stmt jsonb).apply r))
      (h ++ [⟨.updateExecution s.executions.length values, .ok ()⟩]))
    (herr : ∀ e, Q (.error e) (s.push r) (h ++ [⟨.updateExecution s.executions.length values, .error e⟩])) :
    Ends jsonb Q (updateExecution s.executions.length values >>= f) (s.push r) h := by
  have hdone : Ends jsonb Q
      (ask (.updateExecution s.executions.length values) >>= fun done => lift done >>= f) (s.push r) h := by
    refine ends_ask ?_
    rintro done s' ⟨a, hsem⟩
    simp only [handle] at hsem
    split at hsem
    · obtain ⟨rfl, rfl⟩ := answer_inj hsem
      unfold State.push at hok ⊢
      simp only [update_last]
      exact hok
    · next e _ =>
        obtain ⟨rfl, rfl⟩ := answer_inj hsem
        exact ends_raise (herr e)
  exact hdone

/-- How an attempt at a node can end. -/
def Attempted (run : RunId) (node : FlowNode) (s : State) : Except Exn NodeResult → State → Log → Prop
  | out, s', h' => ∃ row, s' = s.push row ∧
    match out with
    | .error _ => Log.verdict h' = .aborted
    | .ok result =>
      (result.status = .succeeded ∧ Log.verdict h' = .clean ∧ row.flowRunId = run ∧
        row.nodeId = node.nodeId ∧ row.status = .succeeded) ∨
      (result.status = .failed ∧ Log.verdict h' = .failed)

theorem ends_tryNode {node : FlowNode} {inputs : JsonDict} {row : FlowNodeExecution}
    (hclean : Log.verdict h = .clean) (hrun : row.flowRunId = run) (hnode : row.nodeId = node.nodeId) :
    Ends jsonb
      (fun
        | .error _, s', h' => s' = s.push row ∧ Log.verdict h' = .failed
        | .ok result, s', h' => ∃ row', s' = s.push row' ∧ result.status = .succeeded ∧
            Log.verdict h' = .clean ∧ row'.flowRunId = run ∧ row'.nodeId = node.nodeId ∧
            row'.status = .succeeded)
      (tryNode node inputs s.executions.length) (s.push row) h := by
  refine ends_answer (fun _ => rfl) fun a => ?_
  cases hfound : a.manifest with
  | error e => exact ends_raise ⟨rfl, by simp only [verdict_snoc, hclean, eventVerdict, Verdict.clean_worse]⟩
  | ok m =>
    simp only [Prog.lift_ok, Prog.ret_bind]
    have hread := mergedParams_isOk node m inputs
    cases hparams : mergedParams node m inputs with
    | error e =>
      have hm : m.readable = false := by
        rw [Bool.eq_false_iff, ne_eq, ← hread, hparams]
        rintro ⟨params, hp⟩
        cases hp
      exact ends_raise ⟨rfl, by simp only [verdict_snoc, hclean, eventVerdict, hm]; rfl⟩
    | ok params =>
      have hm : m.readable = true := hread.mp ⟨params, hparams⟩
      simp only [Prog.lift_ok, Prog.ret_bind]
      refine ends_answer (fun _ => rfl) fun a' => ?_
      cases hran : a'.result with
      | error e => exact ends_raise ⟨rfl, by simp only [verdict_snoc, hclean, eventVerdict, hm]; rfl⟩
      | ok result =>
        simp only [Prog.lift_ok, Prog.ret_bind]
        refine ends_answer (fun _ => rfl) fun a'' => ?_
        refine ends_updateExecution (ends_ret ?_) (fun e => ⟨rfl, ?_⟩)
        · refine ⟨_, rfl, rfl, ?_, hrun, hnode, rfl⟩
          simp only [verdict_snoc, hclean, eventVerdict, hm]
          rfl
        · simp only [verdict_snoc, hclean, eventVerdict, hm]
          rfl

/-- **What `_execute_single_node` does**: it adds a row, and the verdict is that of the attempt. -/
theorem ends_executeSingleNode {node : FlowNode} {inputs : JsonDict} (hclean : Log.verdict h = .clean) :
    Ends jsonb (Attempted run node s) (executeSingleNode run node inputs) s h := by
  refine ends_answer (fun _ => rfl) fun a => ?_
  refine ends_answer (fun _ => rfl) fun a' => ?_
  refine ends_updateExecution (r := { flowRunId := run, nodeId := node.nodeId }) ?_ (fun e => ⟨_, rfl, ?_⟩)
  · refine Ok.rescue (fun _ => rfl) (ends_tryNode ?_ (show run = run from rfl) rfl) ?_ ?_
    · simp only [verdict_snoc, hclean, eventVerdict, Verdict.worse_clean]
    · rintro e ⟨s', h'⟩ ⟨rfl, hfailed⟩
      refine ends_answer (fun _ => rfl) fun a'' => ?_
      refine ends_updateExecution (ends_ret ⟨_, rfl, .inr ⟨rfl, ?_⟩⟩) (fun e => ⟨_, rfl, ?_⟩)
      · rw [verdict_snoc, verdict_snoc, hfailed]
        rfl
      · rw [verdict_snoc, verdict_snoc, hfailed]
        rfl
    · rintro result ⟨s', h'⟩ ⟨row', rfl, hst, hverdict, hrest⟩
      exact ⟨row', rfl, .inl ⟨hst, hverdict, hrest⟩⟩
  · simp only [verdict_snoc, hclean, eventVerdict]
    rfl

/-- **What `_finalize_run` and `_update_job_status` do** to the record: the digest is set or left alone. -/
theorem ends_finish {r : FlowRun} (hr : s.runs[run]? = some r) (jobId : Option Jobs.JobId)
    (versionDigest : String) (status : RunStatus) (summaries : List NodeSummary) :
    Ends jsonb
      (fun out s' h' => (∀ e, out ≠ .error e) ∧ Log.verdict h' = Log.verdict h ∧ s'.executions = s.executions ∧
        ∃ r', s'.runs[run]? = some r' ∧ r'.status = status ∧ r'.completedAt.isSome = true ∧
          (if status = .succeeded then r'.outputDigest.isSome = true else r'.outputDigest = r.outputDigest))
      (finish run jobId versionDigest status summaries) s h := by
  have hdigest : Ends jsonb
      (fun out s' h' => s' = s ∧ Log.verdict h' = Log.verdict h ∧
        ∃ d, out = .ok d ∧ (if status = .succeeded then d.isSome = true else d = none))
      (finalDigest run status versionDigest summaries) s h := by
    unfold finalDigest
    by_cases hstatus : status = .succeeded
    · simp only [if_pos hstatus]
      refine ends_answer (fun _ => rfl) fun a => ?_
      refine ends_ret ⟨rfl, ?_, _, rfl, ?_⟩
      · simp only [verdict_snoc, eventVerdict, Verdict.worse_clean]
      · rw [hr]
        rfl
    · simp only [if_neg hstatus]
      exact ends_ret ⟨rfl, rfl, none, rfl, rfl⟩
  refine ends_bind (P := fun out s' h' => (∀ e, out ≠ .error e) ∧ Log.verdict h' = Log.verdict h ∧
      s'.executions = s.executions ∧ ∃ r', s'.runs[run]? = some r' ∧ r'.status = status ∧
        r'.completedAt.isSome = true ∧
        (if status = .succeeded then r'.outputDigest.isSome = true else r'.outputDigest = r.outputDigest))
    (ends_bind hdigest ?_ ?_) ?_ ?_
  · rintro digest s' h' ⟨rfl, hverdict, d, hd, hsome⟩
    obtain rfl := Except.ok.inj hd
    refine ends_answer (fun _ => rfl) fun a => ?_
    refine ends_perform (o := .updateRun run _) ?_
    rintro u s₂ ⟨a', hsem⟩
    obtain ⟨_, rfl⟩ := answer_inj hsem
    refine ⟨(fun e he => by cases he), ?_, rfl, ?_⟩
    · simp only [verdict_snoc, eventVerdict, Verdict.worse_clean, hverdict]
    · refine ⟨_, by rw [getElem?_update, hr]; rfl, ?_⟩
      simp only [List.mem_singleton, if_true]
      rw [Update.apply_of_cond rfl]
      refine ⟨rfl, rfl, ?_⟩
      by_cases hstatus : status = .succeeded
      · rw [if_pos hstatus] at hsome ⊢
        show (digest.or r.outputDigest).isSome = true
        rw [Option.isSome_or, hsome, Bool.true_or]
      · rw [if_neg hstatus] at hsome ⊢
        show digest.or r.outputDigest = r.outputDigest
        rw [hsome, Option.none_or]
  · rintro e s' h' ⟨_, _, d, hd, _⟩
    cases hd
  · rintro _ s' h' ⟨hout, hverdict, hexec, hrow⟩
    unfold updateJobStatus
    cases jobId with
    | none => exact ends_ret ⟨(fun e he => by cases he), hverdict, hexec, hrow⟩
    | some j =>
      refine ends_perform (o := .updateJobStatus j _) ?_
      rintro u s₁ ⟨a, hsem⟩
      obtain ⟨_, rfl⟩ := answer_inj hsem
      refine ⟨(fun e he => by cases he), ?_, hexec, hrow⟩
      simp only [verdict_snoc, eventVerdict, Verdict.worse_clean, hverdict]
  · rintro e s' h' ⟨hout, _⟩
    exact absurd rfl (hout e)

/-- **The record an attempt at a run leaves**, by the verdict of the call. The run was found as `r`. -/
def Left (run : RunId) (ids : List String) (r : FlowRun) (s' : State) (v : Verdict) : Prop :=
  ∃ r', s'.runs[run]? = some r' ∧
    match v with
    | .clean => r'.status = .succeeded ∧ r'.outputDigest.isSome = true ∧ r'.completedAt.isSome = true ∧
        ∀ id ∈ ids, s'.HasSucceeded run id
    | .failed => r'.status = .failed ∧ r'.outputDigest = r.outputDigest ∧ r'.completedAt.isSome = true
    | .aborted => r'.status = .running ∧ r'.outputDigest = r.outputDigest ∧ r'.completedAt = r.completedAt

theorem left_finish_succeeded {r : FlowRun} (hr : s.runs[run]? = some r) (hclean : Log.verdict h = .clean)
    {ids : List String} (hdone : ∀ id ∈ ids, s.HasSucceeded run id) (jobId : Option Jobs.JobId)
    (versionDigest : String) (summaries : List NodeSummary) :
    Ends jsonb (fun _ s' h' => Left run ids r s' (Log.verdict h'))
      (finish run jobId versionDigest .succeeded summaries) s h := by
  refine (ends_finish hr _ _ _ _).mono ?_
  rintro out ⟨s', h'⟩ ⟨_, hverdict, hexec, r', hr', hstatus, hcompleted, hdigest⟩
  refine ⟨r', hr', ?_⟩
  rw [hverdict, hclean]
  refine ⟨hstatus, hdigest, hcompleted, fun id hid => ?_⟩
  exact (Kept.of_executions hexec run).hasSucceeded.mpr (hdone id hid)

theorem left_finish_failed {r : FlowRun} (hr : s.runs[run]? = some r) (hfailed : Log.verdict h = .failed)
    {ids : List String} (jobId : Option Jobs.JobId) (versionDigest : String) (summaries : List NodeSummary) :
    Ends jsonb (fun _ s' h' => Left run ids r s' (Log.verdict h'))
      (finish run jobId versionDigest .failed summaries) s h := by
  refine (ends_finish hr _ _ _ _).mono ?_
  rintro out ⟨s', h'⟩ ⟨_, hverdict, _, r', hr', hstatus, hcompleted, hdigest⟩
  refine ⟨r', hr', ?_⟩
  rw [hverdict, hfailed]
  exact ⟨hstatus, hdigest, hcompleted⟩

/-- **The loop.** The event of the call is its own and not set, and every node to be done is ahead or has
succeeded. -/
theorem ends_runNodeLoop {c : LoopContext} {r : FlowRun} (hrun : c.run = run) (hr : s.runs[run]? = some r)
    (hstatus : r.status = .running) (hevent : s.events[c.cancelEvent]? = some false)
    (hclean : Log.verdict h = .clean) {order ids : List String}
    (hnodes : ∀ id ∈ order, ∃ node, c.nodeMap.get? id = some node ∧ node.nodeId = id)
    (hdone : ∀ id ∈ ids, id ∈ order ∨ s.HasSucceeded run id)
    (hskip : ∀ id ∈ c.succeededNodes, s.HasSucceeded run id) (outputs : Dict String JsonDict)
    (summaries : Dict String NodeSummary) :
    Ends jsonb (fun _ s' h' => Left run ids r s' (Log.verdict h')) (runNodeLoop c order outputs summaries) s h := by
  induction order generalizing s h outputs summaries with
  | nil =>
    unfold runNodeLoop
    rw [hrun]
    exact left_finish_succeeded hr hclean
      (fun id hid => (hdone id hid).resolve_left List.not_mem_nil) _ _ _
  | cons id rest ih =>
    have hrest : ∀ id ∈ rest, ∃ node, c.nodeMap.get? id = some node ∧ node.nodeId = id :=
      fun id' hid' => hnodes id' (List.mem_cons_of_mem _ hid')
    rw [runNodeLoop, hrun]
    refine ends_answer (fun _ => rfl) fun a => ?_
    have hclean₁ : ∀ ev : Event Op Res, eventVerdict ev = .clean → Log.verdict (h ++ [ev]) = .clean := by
      intro ev hev
      rw [verdict_snoc, hclean, hev]
      rfl
    simp only [hevent, Option.getD_some, Bool.false_eq_true, if_false]
    by_cases hmem : id ∈ c.succeededNodes
    · rw [if_pos hmem]
      refine ih hr hevent (hclean₁ _ rfl) hrest ?_ hskip outputs summaries
      intro id' hid'
      rcases hdone id' hid' with hin | hs
      · rcases List.mem_cons.mp hin with rfl | hin
        · exact .inr (hskip id' hmem)
        · exact .inl hin
      · exact .inr hs
    · obtain ⟨node, hnode, hnodeId⟩ := hnodes id List.mem_cons_self
      rw [if_neg hmem, hnode]
      refine ends_bind (ends_executeSingleNode (hclean₁ _ rfl)) ?_ ?_
      · rintro result s' h' ⟨row, rfl, ⟨hok, hverdict, hrowRun, hrowNode, hrowStatus⟩ | ⟨hfail, hverdict⟩⟩
        · have hsame : ¬ result.status ≠ .succeeded := not_not.mpr hok
          simp only [if_neg hsame]
          refine ih (s := s.push row) hr hevent hverdict hrest ?_ (fun id' hid' => hasSucceeded_push (hskip id' hid')) _ _
          intro id' hid'
          rcases hdone id' hid' with hin | hs
          · rcases List.mem_cons.mp hin with rfl | hin
            · refine .inr (hasSucceeded_iff.mpr ⟨row, ?_, hrowRun, hrowNode.trans hnodeId, hrowStatus⟩)
              exact List.mem_append_right _ (List.mem_singleton.mpr rfl)
            · exact .inl hin
          · exact .inr (hasSucceeded_push hs)
        · have hne : result.status ≠ .succeeded := by
            rw [hfail]
            decide
          simp only [if_pos hne]
          exact left_finish_failed (s := s.push row) hr hverdict _ _ _
      · rintro e s' h' ⟨row, rfl, hverdict⟩
        refine ⟨r, hr, ?_⟩
        rw [hverdict]
        exact ⟨hstatus, rfl, rfl⟩

end Parts

/-! ## Calls -/

section Calls

variable {jsonb : Json → Json} {s : State} {h : Log} {run : RunId} {r : FlowRun} {v : FlowDefinitionVersion}

/-- The row once a call has written `running` over its status. -/
def FlowRun.started (r : FlowRun) (t : Option Time) : FlowRun :=
  { r with status := .running, startedAt := t.or r.startedAt }

theorem getElem?_started (hr : s.runs[run]? = some r) (t : Option Time) :
    (update s.runs [run] (RunValues.stmt { status := setStatus r.status .running, startedAt := t }))[run]?
      = some (r.started t) := by
  have hst : (setStatus r.status .running).getD r.status = .running := by
    unfold setStatus
    split
    · next h => exact h
    · rfl
  rw [getElem?_update, hr, Option.map_some, if_pos (List.mem_singleton.mpr rfl), Update.apply_of_cond rfl]
  simp [RunValues.stmt, FlowRun.started, hst]

theorem Left.of_started {ids : List String} {t : Option Time} {s' : State} {verdict : Verdict}
    (hl : Left run ids (r.started t) s' verdict) : Left run ids r s' verdict := hl

theorem state_of_select {q : ExecutionQuery} {s' : State} {rows : List FlowNodeExecution}
    (hsel : Pool.semOf (handle jsonb) (.selectExecutions q) s rows s') : s' = s := by
  obtain ⟨a, hsem⟩ := hsel
  simp only [handle] at hsem
  split at hsem
  · exact (answer_inj hsem).2.symm
  · cases hsem

theorem ends_loadRun {α : Type} {Q : Except Exn α → State → Log → Prop}
    {f : FlowRun × FlowDefinitionVersion → M α} (hr : s.runs[run]? = some r)
    (hv : s.versions[r.flowVersionId]? = some v)
    (H : ∀ h', Log.verdict h' = Log.verdict h → Ends jsonb Q (f (r, v)) s h') :
    Ends jsonb Q (loadRun run >>= f) s h := by
  refine ends_answer (fun _ => rfl) fun a => ?_
  rw [hr]
  refine ends_answer (fun _ => rfl) fun a' => ?_
  rw [hv]
  refine H _ ?_
  simp only [verdict_snoc, eventVerdict, Verdict.worse_clean]

theorem order_covers {order : List String} (hsort : topologicalSort v.nodes v.edges = .ok order) :
    (∀ id ∈ order, ∃ node, (nodeMapOf v.nodes).get? id = some node ∧ node.nodeId = id) ∧
    ∀ id ∈ v.nodes.map FlowNode.nodeId, id ∈ order := by
  have hperm := topologicalSort_perm hsort
  refine ⟨fun id hid => ?_, fun id hid => hperm.mem_iff.mpr hid⟩
  obtain ⟨node, hnode⟩ := exists_nodeMapOf (hperm.mem_iff.mp hid)
  exact ⟨node, hnode, (nodeMapOf_get? hnode).2⟩

theorem ends_latestExecution {ids : List String} (n : String) (hl : Left run ids r s (Log.verdict h)) :
    Ends jsonb (fun _ s' h' => Left run ids r s' (Log.verdict h')) (latestExecution run n) s h := by
  refine ends_ask ?_
  rintro rows s₁ hsel
  obtain rfl := state_of_select hsel
  have hl' : Left run ids r s₁ (Log.verdict (h ++ [⟨.selectExecutions { run := run, node := some n }, rows⟩])) := by
    rw [verdict_snoc]
    simpa only [eventVerdict, Verdict.worse_clean] using hl
  split
  · exact ends_ret hl'
  · exact ends_raise hl'

theorem ends_checkRetry (nodes : Dict String FlowNode) (n : String) :
    Ends jsonb
      (fun out s' h' => s' = s ∧ Log.verdict h' = Log.verdict h ∧ ∀ node, out = .ok node → nodes.get? n = some node)
      (checkRetry run nodes n) s h := by
  unfold checkRetry
  cases hnode : nodes.get? n with
  | none => exact ends_raise ⟨rfl, rfl, fun _ he => by cases he⟩
  | some node =>
    refine ends_ask ?_
    rintro rows s₁ hsel
    obtain rfl := state_of_select hsel
    have hverdict : Log.verdict (h ++ [⟨.selectExecutions { run := run, node := some n }, rows⟩])
        = Log.verdict h := by
      simp only [verdict_snoc, eventVerdict, Verdict.worse_clean]
    split
    · exact ends_ret ⟨rfl, hverdict, fun _ he => congrArg some (Except.ok.inj he)⟩
    · split
      · exact ends_raise ⟨rfl, hverdict, fun _ he => by cases he⟩
      · exact ends_ret ⟨rfl, hverdict, fun _ he => congrArg some (Except.ok.inj he)⟩

/-- The record a call leaves that attempts nothing: it is as it was, or cancelled for the first time. -/
def Unattempted (run : RunId) (r : FlowRun) (s s' : State) (verdict : Verdict) : Prop :=
  verdict = .clean ∧ s'.executions = s.executions ∧ ∃ r', s'.runs[run]? = some r' ∧
    (r' = r ∨ (¬ r.status.IsFinal ∧ r'.status = .cancelled ∧ r'.outputDigest = r.outputDigest ∧
      r'.completedAt.isSome = true))

/-- **`cancel`.** -/
theorem ends_cancel (hr : s.runs[run]? = some r) (hclean : Log.verdict h = .clean) (svc : ServiceId) :
    Ends jsonb (fun _ s' h' => Unattempted run r s s' (Log.verdict h')) (cancel svc run) s h := by
  refine ends_ask ?_
  rintro u s₁ ⟨a, hsem⟩
  obtain ⟨hruns, hexec⟩ : s₁.runs = s.runs ∧ s₁.executions = s.executions := by
    simp only [handle] at hsem
    split at hsem <;> (obtain ⟨_, rfl⟩ := answer_inj hsem; exact ⟨rfl, rfl⟩)
  refine ends_answer (fun _ => rfl) fun a' => ?_
  rw [hruns, hr]
  dsimp only
  split
  · next hopen =>
      refine ends_answer (fun _ => rfl) fun a'' => ?_
      refine ends_answer (fun _ => rfl) fun a₂ => ?_
      refine ends_ret ⟨?_, hexec, _, by rw [getElem?_update, hruns, hr]; rfl, .inr ?_⟩
      · simp only [verdict_snoc, eventVerdict, Verdict.worse_clean, hclean]
      · simp only [List.mem_singleton, if_true]
        rw [Update.apply_of_cond rfl]
        refine ⟨?_, rfl, rfl, rfl⟩
        rcases hopen with h | h <;> rw [h] <;> decide
  · refine ends_ret ⟨?_, hexec, r, by rw [hruns, hr], .inl rfl⟩
    simp only [verdict_snoc, eventVerdict, Verdict.worse_clean, hclean]

variable {order : List String} (hr : s.runs[run]? = some r) (hv : s.versions[r.flowVersionId]? = some v)
  (hsort : topologicalSort v.nodes v.edges = .ok order) (hclean : Log.verdict h = .clean)

include hr hv hsort hclean

/-- **`execute`.** -/
theorem ends_execute (svc : ServiceId) :
    Ends jsonb (fun _ s' h' => Left run (v.nodes.map FlowNode.nodeId) r s' (Log.verdict h'))
      (execute svc run) s h := by
  obtain ⟨hnodes, hall⟩ := order_covers hsort
  refine ends_loadRun hr hv fun h₁ hverdict => ?_
  refine ends_answer (fun _ => rfl) fun a => ?_
  refine ends_answer (fun _ => rfl) fun a' => ?_
  refine ends_answer (fun _ => rfl) fun a'' => ?_
  simp only [hsort, Prog.lift_ok, Prog.ret_bind]
  refine (ends_runNodeLoop (r := r.started (some a.now)) (show _ = run from rfl) ?_ rfl ?_ ?_ ?_
    (fun id hid => .inl (hall id hid)) ?_ _ _).mono (fun _ _ hl => hl.of_started)
  · exact getElem?_started hr _
  · simp
  · simp only [verdict_snoc, eventVerdict, Verdict.worse_clean, hverdict, hclean]
  · exact hnodes
  · exact List.forall_mem_nil _

/-- **`resume`.** -/
theorem ends_resume (svc : ServiceId) :
    Ends jsonb (fun _ s' h' => Left run (v.nodes.map FlowNode.nodeId) r s' (Log.verdict h'))
      (resume svc run) s h := by
  obtain ⟨hnodes, hall⟩ := order_covers hsort
  refine ends_loadRun hr hv fun h₁ hverdict => ?_
  refine ends_ask ?_
  rintro existing s₁ hsel
  obtain rfl := state_of_select hsel
  refine ends_answer (fun _ => rfl) fun a => ?_
  refine ends_answer (fun _ => rfl) fun a' => ?_
  simp only [hsort, Prog.lift_ok, Prog.ret_bind]
  refine ends_answer (fun _ => rfl) fun a'' => ?_
  refine (ends_runNodeLoop (r := r.started (some a.now)) (show _ = run from rfl) ?_ rfl ?_ ?_ ?_
    (fun id hid => .inl (hall id hid)) ?_ _ _).mono (fun _ _ hl => hl.of_started)
  · exact getElem?_started hr _
  · simp
  · simp only [verdict_snoc, eventVerdict, Verdict.worse_clean, hverdict, hclean]
  · exact hnodes
  · intro id hid
    obtain ⟨row, hrow, rfl⟩ := List.mem_map.mp hid
    obtain ⟨hmem, hst⟩ := List.mem_filter.mp hrow
    obtain ⟨⟨e, he⟩, -⟩ := (mem_select hsel row).mp hmem
    exact ⟨e, row, he, rfl, of_decide_eq_true hst⟩

/-- **What `retry_node` does once its attempt has ended.** -/
theorem ends_afterRetry (svc : ServiceId) (jobId : Option Jobs.JobId) {status : NodeStatus}
    (hdone : status = .succeeded) :
    Ends jsonb (fun _ s' h' => Left run (v.nodes.map FlowNode.nodeId) r s' (Log.verdict h'))
      (afterRetry svc run (nodeMapOf v.nodes) jobId v.digest status) s h := by
  unfold afterRetry
  rw [if_pos hdone]
  refine ends_ask ?_
  rintro done s₁ hsel
  obtain rfl := state_of_select hsel
  have hclean₁ : ∀ ev : Event Op Res, eventVerdict ev = .clean → Log.verdict (h ++ [ev]) = .clean := by
    intro ev hev
    rw [verdict_snoc, hclean, hev]
    rfl
  by_cases hall : ∀ id ∈ (nodeMapOf v.nodes).keys, id ∈ done.map FlowNodeExecution.nodeId
  · simp only [if_pos hall]
    refine ends_ask ?_
    rintro all s₂ hsel'
    obtain rfl := state_of_select hsel'
    refine left_finish_succeeded hr ?_ (fun id hid => ?_) _ _ _
    · rw [verdict_snoc, hclean₁ _ rfl]
      rfl
    · obtain ⟨node, hnode⟩ := exists_nodeMapOf hid
      have hkey : id ∈ (nodeMapOf v.nodes).keys := Dict.mem_keys_iff.mpr ⟨node, hnode⟩
      obtain ⟨row, hrow, rfl⟩ := List.mem_map.mp (hall id hkey)
      obtain ⟨⟨e, he⟩, hq⟩ := (mem_select hsel row).mp hrow
      simp only [ExecutionQuery.selects, Bool.and_eq_true, beq_iff_eq] at hq
      exact ⟨e, row, he, rfl, hq.2⟩
  · simp only [if_neg hall]
    exact ends_resume hr hv hsort (hclean₁ _ rfl) svc

/-- **`retry_node`.** -/
theorem ends_retryNode (svc : ServiceId) (n : String) :
    Ends jsonb
      (fun _ s' h' => Left run (v.nodes.map FlowNode.nodeId) r s' (Log.verdict h') ∨
        Unattempted run r s s' (Log.verdict h'))
      (retryNode svc run n) s h := by
  refine ends_loadRun hr hv fun h₁ hverdict₁ => ?_
  refine ends_bind (ends_checkRetry _ _) ?_ ?_
  · rintro node s₁ h₂ ⟨rfl, hverdict₂, hnode⟩
    refine ends_answer (fun _ => rfl) fun a => ?_
    refine ends_ask ?_
    rintro done s₃ hsel
    obtain rfl := state_of_select hsel
    refine ends_answer (fun _ => rfl) fun a' => ?_
    have hstarted := getElem?_started (s := s₁) hr none
    refine ends_bind (ends_executeSingleNode ?_) ?_ ?_
    · simp only [verdict_snoc, eventVerdict, Verdict.worse_clean, hverdict₂, hverdict₁, hclean]
    · rintro result s₅ h₅ ⟨row, rfl, ⟨hok, hverdict, _⟩ | ⟨hfail, hverdict⟩⟩
      · refine ends_bind (P := fun _ s' h' => Left run (v.nodes.map FlowNode.nodeId) (r.started none) s'
          (Log.verdict h')) ?_ ?_ ?_
        · refine ends_afterRetry (r := r.started none) ?_ ?_ hsort hverdict svc _ hok
          · exact hstarted
          · exact hv
        · intro _ s₆ h₆ hl
          exact (ends_latestExecution n hl.of_started).mono fun _ _ hl' => .inl hl'
        · exact fun _ _ _ hl => .inl hl.of_started
      · have hne : ¬ result.status = .succeeded := by
          rw [hfail]
          decide
        unfold afterRetry
        rw [if_neg hne]
        refine ends_bind (P := fun _ s' h' => Left run (v.nodes.map FlowNode.nodeId) (r.started none) s'
          (Log.verdict h')) ?_ ?_ ?_
        · refine left_finish_failed (r := r.started none) ?_ hverdict _ _ _
          exact hstarted
        · intro _ s₆ h₆ hl
          exact (ends_latestExecution n hl.of_started).mono fun _ _ hl' => .inl hl'
        · exact fun _ _ _ hl => .inl hl.of_started
    · rintro e s₅ h₅ ⟨row, rfl, hverdict⟩
      refine .inl ⟨r.started none, hstarted, ?_⟩
      rw [hverdict]
      exact ⟨rfl, rfl, rfl⟩
  · rintro e s₁ h₂ ⟨rfl, hverdict₂, _⟩
    exact .inr ⟨(hverdict₂.trans hverdict₁).trans hclean, rfl, r, hr, .inl rfl⟩

/-- **What a call leaves.** -/
theorem ends_prog {c : Call} (hc : c.run = run) :
    Ends jsonb
      (fun _ s' h' => Left run (v.nodes.map FlowNode.nodeId) r s' (Log.verdict h') ∨
        Unattempted run r s s' (Log.verdict h'))
      c.prog s h := by
  cases c with
  | execute svc i =>
    obtain rfl : i = run := hc
    exact ends_bind (ends_execute hr hv hsort hclean svc) (fun _ _ _ hl => ends_ret (.inl hl))
      (fun _ _ _ hl => .inl hl)
  | resume svc i =>
    obtain rfl : i = run := hc
    exact ends_bind (ends_resume hr hv hsort hclean svc) (fun _ _ _ hl => ends_ret (.inl hl))
      (fun _ _ _ hl => .inl hl)
  | cancel svc i =>
    obtain rfl : i = run := hc
    exact ends_bind (ends_cancel hr hclean svc) (fun _ _ _ hl => ends_ret (.inr hl)) (fun _ _ _ hl => .inr hl)
  | retryNode svc i n =>
    obtain rfl : i = run := hc
    exact ends_bind (ends_retryNode hr hv hsort hclean svc n) (fun _ _ _ hl => ends_ret hl)
      (fun _ _ _ hl => hl)

end Calls

/-! ## Histories -/

/-- A call that these answers take to its end: the state it leaves, and its log. -/
def finishCall (jsonb : Json → Json) (s : State) (act : Call × List Answer) : Option (State × Log) :=
  (Prog.exec (Prog.recorded (handle jsonb)) act.2 (act.1.prog, (s, []))).bind
    (fun p => if p.1.Ended then some p.2 else none)

/-- One finished call on the run. -/
def finishOn (jsonb : Json → Json) (run : RunId) (s : State) (act : Call × List Answer) : Option State :=
  if act.1.run = run then (finishCall jsonb s act).map Prod.fst else none

/-- The worst answer the call meets. -/
def verdictOf (jsonb : Json → Json) (s : State) (act : Call × List Answer) : Verdict :=
  match finishCall jsonb s act with
  | some (_, h) => Log.verdict h
  | none => .clean

/-- The call meets nothing that leaves a stale record behind: no attempt at a node fails while the run has a
digest, and no statement breaks the call off while the run has a completion time. -/
def State.SparesRecord (jsonb : Json → Json) (run : RunId) (s : State) (act : Call × List Answer) : Prop :=
  ∀ r ∈ s.runs[run]?,
    (verdictOf jsonb s act ≠ .clean → r.outputDigest = none) ∧
      (verdictOf jsonb s act = .aborted → r.completedAt = none)

instance (jsonb : Json → Json) (run : RunId) (s : State) (act : Call × List Answer) :
    Decidable (s.SparesRecord jsonb run act) :=
  inferInstanceAs (Decidable (∀ r ∈ s.runs[run]?, _))

/-- The run executes a published version. -/
def State.Pinned (s : State) (run : RunId) : Prop :=
  ∃ r v, s.runs[run]? = some r ∧ s.versions[r.flowVersionId]? = some v ∧ v.Published

/-- The run has been created and not been worked on. -/
structure State.Unstarted (s : State) (run : RunId) : Prop where
  pinned : s.Pinned run
  pending : ∀ r, s.runs[run]? = some r → r.status = .pending
  digest : ∀ r, s.runs[run]? = some r → r.outputDigest = none
  completed : ∀ r, s.runs[run]? = some r → r.completedAt = none

section Histories

variable {jsonb : Json → Json} {s s' : State} {run : RunId} {r : FlowRun} {v : FlowDefinitionVersion}

theorem State.Unstarted.consistent (h : s.Unstarted run) : s.Consistent run where
  digest r hr := by
    rw [h.digest r hr, h.pending r hr]
    decide
  nodes v _ hst := by
    unfold State.runStatus? at hst
    obtain ⟨r, hr, hs⟩ := Option.map_eq_some_iff.mp hst
    rw [h.pending r hr] at hs
    cases hs
  completed r hr := by
    rw [h.completed r hr, h.pending r hr]
    decide

theorem sameFlows_steps {α : Type} {c c' : M α × (State × Log)}
    (h : Prog.Steps (Pool.semOf (Prog.recorded (handle jsonb))) c c') : SameFlows c.2.1 c'.2.1 := by
  induction h with
  | refl => exact ⟨rfl, fun _ => rfl⟩
  | tail _ hstep ih =>
    cases hstep with
    | @op o k c r c' hsem =>
      obtain ⟨a, hsem⟩ := hsem
      obtain ⟨p, hhandle, heq⟩ := Option.map_eq_some_iff.mp hsem
      obtain ⟨-, rfl⟩ := Prod.mk.inj heq
      have hs := sameFlows_handle hhandle
      exact ⟨hs.1.trans ih.1, fun i => (hs.2 i).trans (ih.2 i)⟩

theorem SameFlows.pinned (hsame : SameFlows s s') (h : s.Pinned run) : s'.Pinned run := by
  obtain ⟨r, v, hr, hv, hpub⟩ := h
  have hrow := hsame.2 run
  rw [hr] at hrow
  obtain ⟨r', hr', hp⟩ := Option.map_eq_some_iff.mp hrow
  refine ⟨r', v, hr', ?_, hpub⟩
  rw [hsame.1, (Prod.mk.inj hp).1]
  exact hv

theorem consistent_iff_row (hr : s.runs[run]? = some r) (hv : s.version? run = some v) :
    s.Consistent run ↔ (r.outputDigest.isSome = true ↔ r.status = .succeeded) ∧
      (r.status = .succeeded → ∀ id ∈ v.nodes.map FlowNode.nodeId, s.HasSucceeded run id) ∧
      (r.completedAt.isSome = true ↔ r.status.IsFinal) := by
  constructor
  · intro h
    refine ⟨h.digest r hr, fun hst id hid => ?_, h.completed r hr⟩
    obtain ⟨node, hnode, rfl⟩ := List.mem_map.mp hid
    refine h.nodes v hv ?_ node hnode
    unfold State.runStatus?
    rw [hr, ← hst]
    rfl
  · rintro ⟨hdigest, hnodes, hcompleted⟩
    refine ⟨fun r' hr' => ?_, fun v' hv' hst node hnode => ?_, fun r' hr' => ?_⟩
    · obtain rfl := Option.some.inj (hr.symm.trans hr')
      exact hdigest
    · obtain rfl := Option.some.inj (hv.symm.trans hv')
      unfold State.runStatus? at hst
      rw [hr] at hst
      exact hnodes (Option.some.inj hst) node.nodeId (List.mem_map.mpr ⟨node, hnode, rfl⟩)
    · obtain rfl := Option.some.inj (hr.symm.trans hr')
      exact hcompleted

/-- **What a finished call does to a consistent record.** -/
theorem consistent_iff_spares (hcons : s.Consistent run) (hr : s.runs[run]? = some r)
    (hv : s.version? run = some v) (hv' : s'.version? run = some v) {verdict : Verdict}
    (h : Left run (v.nodes.map FlowNode.nodeId) r s' verdict ∨ Unattempted run r s s' verdict) :
    s'.Consistent run ↔ (verdict ≠ .clean → r.outputDigest = none) ∧
      (verdict = .aborted → r.completedAt = none) := by
  obtain ⟨hdigest, hnodes, hcompleted⟩ := (consistent_iff_row hr hv).mp hcons
  rcases h with ⟨r', hr', hleft⟩ | ⟨rfl, hexec, r', hr', hrow⟩
  · rw [consistent_iff_row hr' hv']
    cases verdict with
    | clean =>
      obtain ⟨hst, hd, hc, hall⟩ := hleft
      refine iff_of_true ⟨iff_of_true hd hst, fun _ => hall, iff_of_true hc ?_⟩ ⟨fun h => absurd rfl h, nofun⟩
      rw [hst]
      decide
    | failed =>
      obtain ⟨hst, hd, hc⟩ := hleft
      have hfinal : RunStatus.failed.IsFinal := by decide
      rw [hst, hd, hc]
      simp [hfinal]
    | aborted =>
      obtain ⟨hst, hd, hc⟩ := hleft
      have hopen : ¬ RunStatus.running.IsFinal := by decide
      rw [hst, hd, hc]
      simp [hopen]
  · refine iff_of_true ?_ ⟨fun h => absurd rfl h, nofun⟩
    rw [consistent_iff_row hr' hv']
    rcases hrow with rfl | ⟨hopen, hst, hd, hc⟩
    · refine ⟨hdigest, fun hst id hid => ?_, hcompleted⟩
      exact (Kept.of_executions hexec run).hasSucceeded.mpr (hnodes hst id hid)
    · -- a run that is not over has no digest
      have hne : r.status ≠ .succeeded := by
        intro h
        rw [h] at hopen
        exact hopen (by decide)
      have hfinal : RunStatus.cancelled.IsFinal := by decide
      have hnone : r.outputDigest.isSome = false := Bool.eq_false_iff.mpr (mt hdigest.mp hne)
      rw [hst, hd, hc, hnone]
      simp [hfinal]

/-- **One finished call.** -/
theorem finishOn_step {act : Call × List Answer} (h : finishOn jsonb run s act = some s')
    (hI : s.Consistent run ∧ s.Pinned run) :
    (s'.Consistent run ↔ s.SparesRecord jsonb run act) ∧
      (s.SparesRecord jsonb run act → s'.Consistent run ∧ s'.Pinned run) := by
  obtain ⟨hcons, r, v, hr, hv, hpub⟩ := hI
  unfold finishOn at h
  split at h
  · next hc =>
      obtain ⟨⟨s₁, log⟩, hfinish, rfl⟩ := Option.map_eq_some_iff.mp h
      obtain ⟨⟨p, c⟩, hexec, hend⟩ := Option.bind_eq_some_iff.mp hfinish
      split at hend
      · next hp =>
          obtain rfl := Option.some.inj hend
          have hsteps : Prog.Steps (Pool.semOf (Prog.recorded (handle jsonb))) (act.1.prog, (s, [])) (p, (s₁, log)) :=
            Prog.Steps.of_exec hexec
          obtain ⟨order, hsort⟩ := hpub.sorted
          have hends : Ends jsonb _ act.1.prog s [] := ends_prog hr hv hsort rfl hc
          have hok := hends.steps (fun _ => rfl) hsteps
          obtain ⟨-, hleft⟩ := hok.ended (fun _ => rfl) hp
          have hsame : SameFlows s s₁ := sameFlows_steps hsteps
          have hversion : s.version? run = some v := by
            unfold State.version?
            rw [hr]
            exact hv
          have hversion' : s₁.version? run = some v := by
            obtain ⟨r', hr', hp⟩ := Option.map_eq_some_iff.mp ((hsame.2 run).trans (by rw [hr]; rfl))
            unfold State.version?
            rw [hr', Option.bind_some, hsame.1, (Prod.mk.inj hp).1]
            exact hv
          have hverdict : verdictOf jsonb s act = Log.verdict log := by
            unfold verdictOf
            rw [hfinish]
          have hiff : s₁.Consistent run ↔ s.SparesRecord jsonb run act := by
            rw [consistent_iff_spares hcons hr hversion hversion' hleft, State.SparesRecord, hverdict, hr]
            simp only [Option.mem_def, Option.some.injEq, forall_eq']
          exact ⟨hiff, fun hsp => ⟨hiff.mpr hsp, hsame.pinned ⟨r, v, hr, hv, hpub⟩⟩⟩
      · cases hend
  · cases h

/-- **The record of a run is consistent after every call exactly when no call meets what leaves it stale.**
In every history of finished calls `execute`, `resume`, `retry_node` and `cancel` on a run, of any service
instances and with any outcomes, the record is consistent after each call if and only if no call meets a
failing attempt while the run has a digest, and none is broken off while it has a completion time. -/
theorem record_consistent_iff (jsonb : Json → Json) (run : RunId) (s : State) (hs : s.Unstarted run)
    (acts : List (Call × List Answer)) :
    (∀ t ∈ play (finishOn jsonb run) s acts, t.post.Consistent run) ↔
      ∀ t ∈ play (finishOn jsonb run) s acts, t.pre.SparesRecord jsonb run t.act :=
  (play_run s acts).forall_congr (I := fun s => s.Consistent run ∧ s.Pinned run)
    (fun h hI => finishOn_step h hI) ⟨hs.consistent, hs.pinned⟩

end Histories

/-- The flow of one node, as it is published. -/
def publishedLoad : FlowDefinitionVersion :=
  { loadVersion with digest := computeFlowDigest loadVersion.nodes [] 0 }

theorem publishedLoad_published : publishedLoad.Published :=
  ⟨fun _ _ => .ok { inputPorts := [], outputPorts := [], manifest := .ok { name := "csv" } }, fun _ _ => none, 0,
    { definitions := [{}], versions := [] }, _, 0, loadVersion.nodes, [], 0, rfl⟩

theorem publishedLoad_unstarted : (freshState publishedLoad).Unstarted 0 where
  pinned := ⟨_, _, rfl, rfl, publishedLoad_published⟩
  pending := by rintro r ⟨⟩; rfl
  digest := by rintro r ⟨⟩; rfl
  completed := by rintro r ⟨⟩; rfl

/-- The node fails in `execute` and succeeds in `resume`. -/
def executeResume : List (Call × List Answer) :=
  [(.execute 0 0, List.replicate 15 fails), (.resume 0 0, List.replicate 17 { succeeds with rows := [0] })]

theorem executeResume_consistent :
    (play (finishOn id 0) (freshState publishedLoad) executeResume).length = 2 ∧
      ∀ t ∈ play (finishOn id 0) (freshState publishedLoad) executeResume, t.post.Consistent 0 :=
  ⟨by decide +kernel,
    (record_consistent_iff id 0 _ publishedLoad_unstarted executeResume).mpr (by decide +kernel)⟩

/-- The node succeeds in `execute` and fails in a second `execute`. -/
def executeAgain : List (Call × List Answer) :=
  [(.execute 0 0, List.replicate 16 succeeds), (.execute 0 0, List.replicate 15 fails)]

/-- The record is not consistent in general: the failed run keeps the digest of the succeeded one. -/
theorem failed_with_digest :
    ¬ ∀ (jsonb : Json → Json) (run : RunId) (s : State), s.Unstarted run → ∀ acts : List (Call × List Answer),
      ∀ t ∈ play (finishOn jsonb run) s acts, t.post.Consistent run := by
  intro h
  have hrow : ∃ t ∈ play (finishOn id 0) (freshState publishedLoad) executeAgain, ∃ r ∈ t.post.runs[0]?,
      r.outputDigest.isSome = true ∧ r.status = .failed := by decide +kernel
  obtain ⟨t, ht, r, hr, hd, hst⟩ := hrow
  have hcons := h id 0 _ publishedLoad_unstarted executeAgain t ht
  rw [(hcons.digest r hr).mp hd] at hst
  cases hst

end Irip.Flow
