import Irip.Flow.Progress

/-!
# `Flow.Replay` — the digest of a run that failed and was continued

A run starts with `execute`; when it fails it is continued by `resume` and `retry_node`. `resume` ends with
the digest of a pass without failures. `retry_node` does so only when it hands over to `resume`: when no node
is left it takes the digest over all rows, failed attempts included.
-/

namespace Irip.Flow

variable {S : Scenario} {rs : List (String × ComponentResult)} {run : RunId} {w w' : World}

/-! ## Rows are only added -/

section Grown

/-- The rows of the first world are the first rows of the second. -/
def World.Grown (w w' : World) : Prop := w.state.executions <+: w'.state.executions

theorem grown_push (row : FlowNodeExecution) (clock : Time) : w.Grown (w.push row clock) :=
  List.prefix_append _ _

theorem grown_finish (jobId : Option Jobs.JobId) (versionDigest : String) (status : RunStatus)
    (summaries : List NodeSummary) :
    S.Does (fun _ w' => w.Grown w') (finish run jobId versionDigest status summaries) w := by
  refine (does_finish _ _ _ _ _).mono fun _ w' hfin => ?_
  have hsame : w.state.executions ++ [] = w'.state.executions := by
    rw [List.append_nil, hfin.executions]
  exact ⟨[], hsame⟩

theorem grown_runNodeLoop (c : LoopContext) (order : List String) (outputs : Dict String JsonDict)
    (summaries : Dict String NodeSummary) :
    S.Does (fun _ w' => w.Grown w') (runNodeLoop c order outputs summaries) w := by
  induction order generalizing outputs summaries w with
  | nil => exact grown_finish _ _ _ _
  | cons id rest ih =>
    rw [runNodeLoop]
    refine does_ask fun cancelled w₁ hsem => ?_
    obtain rfl := sem_isSet hsem
    split
    · exact grown_finish _ _ _ _
    · split
      · exact ih _ _
      · cases c.nodeMap.get? id with
        | none => exact does_raise (List.prefix_refl _)
        | some node =>
          refine does_bind (P := fun _ w' => w₁.Grown w') ?_ ?_ fun _ _ h => h
          · refine (does_executeSingleNode _ _ _).mono fun out w' hout => ?_
            cases out with
            | error e => exact hout.elim
            | ok result =>
              obtain ⟨t, clock, _, _, ⟨_, rfl⟩ | ⟨_, _, _, rfl⟩⟩ := hout
              · exact grown_push _ _
              · exact grown_push _ _
          · intro result w' hgrown
            dsimp only
            split
            · exact (grown_finish _ _ _ _).mono fun _ _ h => hgrown.trans h
            · exact (ih _ _).mono fun _ _ h => hgrown.trans h

theorem grown_resume (svc : ServiceId) (h : S.Loaded run w) :
    S.Does (fun _ w' => w.Grown w') (resume svc run) w := by
  obtain ⟨r, hr, _, hv⟩ := h
  refine does_loadRun hr hv ?_
  refine does_ask fun existing w₁ hsem => ?_
  obtain ⟨_, _, rfl⟩ := sem_selectExecutions hsem
  refine does_ask fun t w₂ hsem => ?_
  obtain ⟨_, rfl⟩ := sem_now hsem
  refine does_ask fun _ w₃ hsem => ?_
  obtain rfl := sem_updateRun hsem
  cases topologicalSort S.version.nodes S.version.edges with
  | error e => exact does_raise (List.prefix_refl _)
  | ok order =>
    refine does_ask fun cancelEvent w₄ hsem => ?_
    obtain ⟨events, cancelEvents, rfl⟩ := sem_newEvent hsem
    refine (grown_runNodeLoop _ _ _ _).mono fun _ w' hgrown => ?_
    exact hgrown

theorem grown_afterRetry (svc : ServiceId) (nodes : Dict String FlowNode) (jobId : Option Jobs.JobId)
    (versionDigest : String) (status : NodeStatus) (h : S.Loaded run w) :
    S.Does (fun _ w' => w.Grown w') (afterRetry svc run nodes jobId versionDigest status) w := by
  unfold afterRetry
  split
  · refine does_ask fun done w₁ hsem => ?_
    obtain ⟨_, _, rfl⟩ := sem_selectExecutions hsem
    split
    · refine does_ask fun all w₂ hsem => ?_
      obtain ⟨_, _, rfl⟩ := sem_selectExecutions hsem
      exact grown_finish _ _ _ _
    · exact grown_resume svc h
  · exact grown_finish _ _ _ _

end Grown

/-! ## Retries -/

/-- The nodes without a succeeded row, in execution order. -/
def Scenario.missing (S : Scenario) (run : RunId) (w : World) : List String :=
  S.order.filter (fun id => id ∉ doneNodes (w.rows run))

/-- A successful attempt at `n` leaves the run where a `resume` would: further nodes are missing, so that
`resume` takes over, and the parameters are those of the loop. -/
structure Scenario.SafeSuccess (S : Scenario) (run : RunId) (n : String) (w : World) : Prop where
  notLast : S.missing run w ≠ [n]
  before : S.Restorable (doneNodes (w.rows run))
  after : S.Restorable (doneNodes (w.rows run) ++ [n])
  params : ∀ node ∈ (nodeMapOf S.version.nodes).get? n,
    SameParams
      (mergedParams node (S.latest node.componentName)
        (retryInputs node (storedOutputs (w.rows run)) S.snapshot))
      (mergedParams node (S.latest node.componentName)
        (loopInputs node (storedOutputs (w.rows run)) S.snapshot))

/-- A `retry_node` of `n` from `w` to `w'` is harmless: it is refused, or `n` is the first missing node and
the attempt fails or its success is safe. -/
def Scenario.SafeRetry (S : Scenario) (run : RunId) (n : String) (w w' : World) : Prop :=
  w'.state.executions = w.state.executions ∨
    ((S.missing run w).head? = some n ∧ (n ∈ S.missing run w' ∨ S.SafeSuccess run n w))

theorem does_checkRetry (nodes : Dict String FlowNode) (n : String) :
    S.Does
      (fun
        | .error _, w' => w' = w
        | .ok node, w' => nodes.get? n = some node ∧ w' = w)
      (checkRetry run nodes n) w := by
  unfold checkRetry
  cases nodes.get? n with
  | none => exact does_raise rfl
  | some node =>
    refine does_ask fun rows w₁ hsem => ?_
    obtain ⟨_, _, rfl⟩ := sem_selectExecutions hsem
    cases rows.head? with
    | none => exact does_ret ⟨rfl, rfl⟩
    | some existing =>
      dsimp only
      split
      · exact does_raise rfl
      · exact does_ret ⟨rfl, rfl⟩

theorem does_latestExecution {P : World → Prop} (n : String) (h : P w) :
    S.Does (fun _ w' => P w') (latestExecution run n) w := by
  refine does_ask fun rows w₁ hsem => ?_
  obtain ⟨_, _, rfl⟩ := sem_selectExecutions hsem
  cases rows.head? with
  | none => exact does_raise h
  | some e => exact does_ret h

section Retries

variable {rest : List String}

theorem select_succeeded (run : RunId) (w : World) :
    w.select { run := run, status := some .succeeded } = succeededRows (w.rows run) := by
  unfold World.select World.rows World.select succeededRows
  rw [List.filter_filter]
  congr 1
  funext e
  simp [ExecutionQuery.selects, Bool.and_comm]
  rfl

variable (hsort : topologicalSort S.version.nodes S.version.edges = .ok S.order)

include hsort

theorem Scenario.Progress.missing_eq (h : S.Progress run rs rest w) : S.missing run w = rest := by
  unfold Scenario.missing
  rw [h.doneNodes_eq, h.order, List.filter_append]
  have hdone : (rs.map Prod.fst).filter (fun id => id ∉ rs.map Prod.fst) = [] := by
    rw [List.filter_eq_nil_iff]
    intro id hid
    simpa using hid
  have hrest : rest.filter (fun id => id ∉ rs.map Prod.fst) = rest := by
    rw [List.filter_eq_self]
    intro id hid
    exact decide_eq_true (h.not_mem hsort hid)
  rw [hdone, hrest, List.nil_append]

theorem Scenario.Progress.seen_select (h : S.Progress run rs rest w) {rows : List FlowNodeExecution}
    (hrows : rows.Perm (w.select { run := run, status := some .succeeded })) :
    S.Seen (rs.map Prod.fst) rs (storedOutputs rows) := by
  rw [select_succeeded] at hrows
  refine seen_restored (h.nodup hsort) ?_
  rw [← h.rows.done]
  have hsucceeded : (succeededRows rows).Perm (succeededRows (w.rows run)) := by
    have hfilter := hrows.filter (fun e => decide (e.status = .succeeded))
    have hidem : succeededRows (succeededRows (w.rows run)) = succeededRows (w.rows run) := by
      unfold succeededRows
      rw [List.filter_filter]
      simp
    exact hidem ▸ hfilter
  exact hsucceeded.map _

variable {w₁ : World} {n : String} {node : FlowNode} {t clock : Time}

theorem does_retry_failed (svc : ServiceId) (jobId : Option Jobs.JobId) (h : S.Progress run rs rest w)
    (h₁ : S.Progress run rs rest w₁) (hexec : w₁.state.executions = w.state.executions)
    (hnode : (nodeMapOf S.version.nodes).get? n = some node) (ht : w₁.clock < t) (hclock : t ≤ clock) :
    S.Does (fun _ w' => S.SafeRetry run n w w' → S.Settled run w')
      (afterRetry svc run (nodeMapOf S.version.nodes) jobId S.version.digest .failed)
      (w₁.push (attempt run node t .failed ∅) clock) := by
  unfold afterRetry
  rw [if_neg (fun hst => nomatch hst)]
  refine (does_finish _ _ _ _ _).mono fun _ w' hfin hsafe => ?_
  rcases hsafe with hsame | ⟨hfirst, _⟩
  · -- a refused call adds no row
    have hlen := congrArg List.length (hfin.executions.symm.trans (hsame.trans hexec.symm))
    simp [World.push] at hlen
  · rw [h.missing_eq hsort] at hfirst
    cases rest with
    | nil => cases hfirst
    | cons id rest =>
      obtain rfl := Option.some.inj hfirst
      have hpush := h₁.fail hsort (nodeMapOf_get? hnode).2 ht hclock
      exact settled_of_finished hpush hfin fun hst => nomatch hst

theorem does_retry_succeeded (hdet : S.Deterministic) (hkeep : S.KeepsSummaries) (svc : ServiceId)
    (jobId : Option Jobs.JobId) (h : S.Progress run rs rest w) (hrest : rest ≠ [])
    (hread : S.Restorable (rs.map Prod.fst)) :
    S.Does (fun _ w' => S.Settled run w')
      (afterRetry svc run (nodeMapOf S.version.nodes) jobId S.version.digest .succeeded) w := by
  unfold afterRetry
  rw [if_pos rfl]
  refine does_ask fun done w₁ hsem => ?_
  obtain ⟨hperm, _, rfl⟩ := sem_selectExecutions hsem
  have hmissing : ¬ ∀ id ∈ (nodeMapOf S.version.nodes).keys, id ∈ done.map FlowNodeExecution.nodeId := by
    obtain ⟨id, rest', rfl⟩ := List.exists_cons_of_ne_nil hrest
    intro hall
    have hkey : id ∈ (nodeMapOf S.version.nodes).keys := by
      refine Dict.mem_keys_iff.mpr (exists_node hsort ?_)
      rw [h.order]
      exact List.mem_append_right _ List.mem_cons_self
    have hid := hall id hkey
    rw [select_succeeded] at hperm
    have hdone : (done.map FlowNodeExecution.nodeId).Perm (rs.map Prod.fst) := by
      rw [← h.doneNodes_eq]
      exact hperm.map _
    exact h.not_mem hsort List.mem_cons_self (hdone.mem_iff.mp hid)
  rw [if_neg hmissing]
  exact does_resume hdet hkeep hsort svc h hread

omit hsort in
theorem safeSuccess_of_grown {summary : JsonDict} (hexec : w₁.state.executions = w.state.executions)
    (hnode : node.nodeId = n) (hgrown : (w₁.push (attempt run node t .succeeded summary) clock).Grown w')
    (hsafe : S.SafeRetry run n w w') : (S.missing run w).head? = some n ∧ S.SafeSuccess run n w := by
  obtain ⟨later, hlater⟩ := hgrown
  rw [World.push] at hlater
  rcases hsafe with hsame | ⟨hfirst, hmissing | hsuccess⟩
  · have hlen := congrArg List.length (hlater.trans (hsame.trans hexec.symm))
    simp at hlen
  · have hrow : attempt run node t .succeeded summary ∈ succeededRows (w'.rows run) := by
      unfold succeededRows World.rows World.select
      rw [← hlater]
      simp [attempt, ExecutionQuery.selects]
    have hnot := (List.mem_filter.mp hmissing).2
    exact absurd (List.mem_map.mpr ⟨_, hrow, hnode⟩) (of_decide_eq_true hnot)
  · exact ⟨hfirst, hsuccess⟩

theorem does_retry_attempted (hdet : S.Deterministic) (hkeep : S.KeepsSummaries) (svc : ServiceId)
    (jobId : Option Jobs.JobId) (h : S.Progress run rs rest w) (h₁ : S.Progress run rs rest w₁)
    (hexec : w₁.state.executions = w.state.executions)
    (hnode : (nodeMapOf S.version.nodes).get? n = some node) {done : List FlowNodeExecution}
    (hdone : done.Perm (w.select { run := run, status := some .succeeded })) {result : NodeResult}
    (hout : S.Attempted run node (retryInputs node (storedOutputs done) S.snapshot) w₁ (.ok result) w') :
    S.Does (fun _ w' => S.SafeRetry run n w w' → S.Settled run w')
      (afterRetry svc run (nodeMapOf S.version.nodes) jobId S.version.digest result.status) w' := by
  obtain ⟨t, clock, ht, hclock, ⟨rfl, rfl⟩ | ⟨params, hparams, rfl, rfl⟩⟩ := hout
  · exact does_retry_failed hsort svc jobId h h₁ hexec hnode ht hclock
  have hid := (nodeMapOf_get? hnode).2
  by_cases hok : (S.missing run w).head? = some n ∧ S.SafeSuccess run n w
  · obtain ⟨hfirst, hsuccess⟩ := hok
    rw [h.missing_eq hsort] at hfirst
    have hlast := hsuccess.notLast
    have hafter := hsuccess.after
    rw [h.missing_eq hsort] at hlast
    rw [h.doneNodes_eq] at hafter
    have hafter' : ∀ result : ComponentResult, S.Restorable ((rs ++ [(n, result)]).map Prod.fst) := by
      intro result
      rw [List.map_append]
      exact hafter
    cases rest with
    | nil => cases hfirst
    | cons id rest =>
      obtain rfl := Option.some.inj hfirst
      have hseen := h.seen_select hsort hdone
      have hrows : S.Seen (rs.map Prod.fst) rs (storedOutputs (w.rows run)) :=
        seen_restored (h.nodup hsort) (h.rows.done ▸ .refl _)
      have hinputs : retryInputs node (storedOutputs done) S.snapshot
          = retryInputs node (storedOutputs (w.rows run)) S.snapshot :=
        boundInputs_congr (hseen.trans hrows.symm) node S.snapshot
      rw [hinputs] at hparams
      have hresult := h.results.next hdet hkeep hrows (h.doneNodes_eq ▸ hsuccess.before) hnode
        (h.not_mem hsort List.mem_cons_self) (hsuccess.params node hnode) hparams
      have hpush := h₁.succeed hsort hkeep hid ht hclock hresult
      have hrest : rest ≠ [] := fun hnil => hlast (hnil ▸ rfl)
      have hresumed := does_retry_succeeded hsort hdet hkeep svc jobId hpush hrest (hafter' _)
      refine hresumed.mono fun _ w' hs => ?_
      exact fun _ => hs
  · refine (grown_afterRetry svc _ _ _ _ ?_).mono fun _ w' hgrown hsafe => ?_
    · exact h₁.loaded
    · exact absurd (safeSuccess_of_grown hexec hid hgrown hsafe) hok

/-- **`retry_node`, when it is safe.** -/
theorem does_retryNode (hdet : S.Deterministic) (hkeep : S.KeepsSummaries) (svc : ServiceId) (n : String)
    (h : S.Progress run rs rest w) (hs : S.Settled run w) :
    S.Does (fun _ w' => S.SafeRetry run n w w' → S.Settled run w') (retryNode svc run n) w := by
  obtain ⟨r, hr, hsnap, hv⟩ := h.loaded
  refine does_loadRun hr hv ?_
  refine does_bind (does_checkRetry _ n) ?_ ?_
  · rintro node w₁ ⟨hnode, rfl⟩
    refine does_ask fun _ w₂ hsem => ?_
    obtain rfl := sem_updateRun hsem
    refine does_ask fun done w₃ hsem => ?_
    obtain ⟨hdone, _, rfl⟩ := sem_selectExecutions hsem
    refine does_ask fun _ w₄ hsem => ?_
    obtain ⟨events, cancelEvents, rfl⟩ := sem_newEvent hsem
    have hstart := h.start { status := setStatus r.status .running } le_rfl events cancelEvents
    refine does_bind (does_executeSingleNode run node _) ?_ fun _ _ hfalse => hfalse.elim
    intro result w' hout
    rw [hsnap] at hout
    refine does_bind (P := fun _ w' => S.SafeRetry run n w₁ w' → S.Settled run w') ?_
      (fun _ w' hw' => does_latestExecution n hw') fun _ _ hw' => hw'
    exact does_retry_attempted hsort hdet hkeep svc r.jobId h hstart rfl hnode hdone hout
  · rintro e w₁ rfl _
    exact hs

end Retries

/-! ## Histories -/

/-- A run of the flow that has not been started. -/
structure Scenario.Fresh (S : Scenario) (run : RunId) (w : World) : Prop where
  loaded : S.Loaded run w
  pending : w.state.runStatus? run = some .pending
  noRows : w.rows run = []

/-- The call, made in the first world, has ended in the second. -/
def Scenario.Completes (S : Scenario) (c : Call) (w w' : World) : Prop :=
  ∃ p : M Reply, p.Ended ∧ Prog.Steps S.sem (c.prog, w) (p, w')

/-- The call continues the run. -/
def Call.Continues (run : RunId) : Call → Prop
  | .resume _ r => r = run
  | .retryNode _ r _ => r = run
  | _ => False

/-- From `w₀` the run has been executed, and then continued by calls that meet `safe` as long as it had not
succeeded. -/
inductive Scenario.History (S : Scenario) (safe : Call → World → World → Prop) (run : RunId) (w₀ : World) :
    World → Prop where
  | execute {svc w} : S.Completes (.execute svc run) w₀ w → S.History safe run w₀ w
  | next {c w w'} : S.History safe run w₀ w → w.state.runStatus? run ≠ some .succeeded → c.Continues run →
      safe c w w' → S.Completes c w w' → S.History safe run w₀ w'

/-- The calls that leave the digest alone: a `resume` when no missing node reads an added entry of a restored
one, and a safe `retry_node`. -/
def Scenario.SafeCall (S : Scenario) : Call → World → World → Prop
  | .resume _ run, w, _ => S.Restorable (doneNodes (w.rows run))
  | .retryNode _ run n, w, w' => S.SafeRetry run n w w'
  | _, _, _ => True

/-- Every history that ends in success has the digest of a single `execute` that succeeds. -/
def Scenario.Replays (S : Scenario) (safe : Call → World → World → Prop) : Prop :=
  ∀ (run : RunId) (w₀ w : World), S.Fresh run w₀ → S.History safe run w₀ w →
    w.state.runStatus? run = some .succeeded →
  ∀ (svc : ServiceId) (run₁ : RunId) (v₀ v : World), S.Fresh run₁ v₀ →
    S.Completes (.execute svc run₁) v₀ v → v.state.runStatus? run₁ = some .succeeded →
  ∃ digest, w.state.outputDigest? run = some digest ∧ v.state.outputDigest? run₁ = some digest

section Histories

theorem completes_post {c : Call} (h : S.Completes c w w') {Q : Except Exn Reply → World → Prop}
    (hc : S.Does Q c.prog w) : ∃ out, Q out w' := by
  obtain ⟨p, hend, hsteps⟩ := h
  exact (hc.steps (fun _ => rfl) hsteps).ended (fun _ => rfl) hend

theorem Scenario.Fresh.progress (h : S.Fresh run w) : S.Progress run [] S.order w where
  loaded := h.loaded
  results := .nil
  order := rfl
  rows := by
    rw [h.noRows]
    exact ⟨rfl, ⟨[], rfl, .inl rfl⟩, .nil, fun _ he => nomatch he⟩

variable (hdet : S.Deterministic) (hkeep : S.KeepsSummaries) (hpub : S.version.Published)

include hdet hkeep hpub

theorem settled_of_completes {c : Call} (hc : c.Continues run) (hs : S.Settled run w)
    (hsafe : S.SafeCall c w w') (h : S.Completes c w w') : S.Settled run w' := by
  have hsort := S.sorted_order hpub
  obtain ⟨rs, rest, hprogress, _⟩ := id hs
  cases c with
  | execute svc r | cancel svc r => exact hc.elim
  | resume svc r =>
    obtain rfl : r = run := hc
    have hread : S.Restorable (rs.map Prod.fst) := hprogress.doneNodes_eq ▸ hsafe
    obtain ⟨_, hsettled⟩ := completes_post h (Q := fun _ w' => S.Settled r w')
      (does_bind (does_resume hdet hkeep hsort svc hprogress hread) (fun _ _ hw => does_ret hw)
        fun _ _ hw => hw)
    exact hsettled
  | retryNode svc r n =>
    obtain rfl : r = run := hc
    obtain ⟨_, hsettled⟩ := completes_post h (Q := fun _ w' => S.SafeRetry r n w w' → S.Settled r w')
      (does_bind (does_retryNode hsort hdet hkeep svc n hprogress hs) (fun _ _ hw => does_ret hw)
        fun _ _ hw => hw)
    exact hsettled hsafe

theorem settled_of_execute {svc : ServiceId} (hfresh : S.Fresh run w)
    (h : S.Completes (.execute svc run) w w') : S.Settled run w' := by
  have hsort := S.sorted_order hpub
  obtain ⟨_, hsettled⟩ := completes_post h (Q := fun _ w' => S.Settled run w')
    (does_bind (does_execute hdet hkeep hsort svc hfresh.progress) (fun _ _ hw => does_ret hw)
      fun _ _ hw => hw)
  exact hsettled

theorem settled_of_history {w₀ : World} (hfresh : S.Fresh run w₀) (h : S.History S.SafeCall run w₀ w) :
    S.Settled run w := by
  induction h with
  | execute h => exact settled_of_execute hdet hkeep hpub hfresh h
  | next _ _ hc hsafe h ih => exact settled_of_completes hdet hkeep hpub hc ih hsafe h

/-- **Histories of safe calls replay.** Let the components be deterministic with JSON outputs, and let JSONB
give their summaries back as they were written. When in a history of a published flow no missing node
reads an added entry of a restored node, and every `retry_node` is refused, fails at the first missing
node, or succeeds there on the parameters of the loop with further nodes missing, then the digest of the
succeeded run is that of a single execution. -/
theorem replay_digest : S.Replays S.SafeCall := by
  intro run w₀ w hfresh hhistory hw svc run₁ v₀ v hfresh₁ honce hv
  obtain ⟨rs, rest, hprogress, hdigest⟩ := settled_of_history hdet hkeep hpub hfresh hhistory
  obtain ⟨rs₁, rest₁, hprogress₁, hdigest₁⟩ := settled_of_execute hdet hkeep hpub hfresh₁ honce
  obtain ⟨rfl, hd⟩ := hdigest hw
  obtain ⟨rfl, hd₁⟩ := hdigest₁ hv
  have hids : rs.map Prod.fst = rs₁.map Prod.fst := by
    rw [← List.append_nil (rs.map Prod.fst), ← hprogress.order, hprogress₁.order, List.append_nil]
  obtain rfl := hprogress.results.unique hprogress₁.results hids
  exact ⟨S.digest rs, hd, hd₁⟩

end Histories

/-! ### Concrete histories -/

/-- The world in which a call with these answers ends. -/
def Scenario.after (S : Scenario) (c : Call) (answers : List Answer) (w : World) : Option World :=
  (Prog.exec S.handle answers (c.prog, w)).bind (fun p => if p.1.Ended then some p.2 else none)

theorem completes_of_after {c : Call} {answers : List Answer} (h : S.after c answers w = some w') :
    S.Completes c w w' := by
  obtain ⟨⟨p, w₁⟩, hexec, hend⟩ := Option.bind_eq_some_iff.mp h
  split at hend
  · next hp =>
      obtain rfl := Option.some.inj hend
      exact ⟨p, hp, Prog.Steps.of_exec hexec⟩
  · cases hend

/-- The answers to the operations of a call, one second apart: SELECTs return the given rows, and components
fail or not. -/
def answers (t : Time) (fails : Bool) (rows : List (List ExecutionId)) : List Answer :=
  rows.zipIdx.map (fun p =>
    { now := t + p.2, rows := p.1, manifest := .ok { name := "csv" },
      result := if fails then .error (.other "RuntimeError" "boom") else .ok { outputs := ∅, summary := "" } })

/-- The rows of `n` operations that return none. -/
def noRows (n : Nat) : List (List ExecutionId) := List.replicate n []

/-- Every component exists, with an input and an output port. -/
def portRegistry : Registry := fun _ _ =>
  .ok { inputPorts := [{ name := "in", dataType := "any" }], outputPorts := [{ name := "out", dataType := "any" }],
        manifest := .ok { name := "csv" } }

/-- A published flow, every component of which puts out the same. -/
def sampleScenario (nodes : List FlowNode) (edges : List FlowEdge) : Scenario where
  version :=
    { flowDefinitionId := 0, version := 1, nodes := nodes, edges := edges, randomSeed := 0,
      digest := computeFlowDigest nodes edges 0, publishedAt := 0 }
  latest _ := { name := "csv" }
  runner _ _ := { outputs := .ofList [("out", .int 1)], summary := "ok" }

section Samples

variable (nodes : List FlowNode) (edges : List FlowEdge)

theorem sample_deterministic : (sampleScenario nodes edges).Deterministic where
  same _ _ _ _ := rfl
  json _ _ v hv := by
    obtain rfl : v = .int 1 := List.mem_singleton.mp hv
    rfl

theorem sample_keepsSummaries : (sampleScenario nodes edges).KeepsSummaries :=
  fun _ _ => Dict.mapVal_id _

/-- The world before the flow is executed as run 0. -/
def unstarted : World := { state := freshState (sampleScenario nodes edges).version }

theorem sample_fresh : (sampleScenario nodes edges).Fresh 0 (unstarted nodes edges) where
  loaded := ⟨_, rfl, rfl, rfl⟩
  pending := rfl
  noRows := rfl

end Samples

/-- Two nodes, the second of which reads the first. -/
def readerNodes : List FlowNode :=
  [{ nodeId := "a", componentName := "csv", componentVersion := "1" },
   { nodeId := "b", componentName := "csv", componentVersion := "1", inputBindings := .ofList [("in", "a:out")] }]

def readerEdges : List FlowEdge :=
  [{ sourceNode := "a", sourcePort := "out", targetNode := "b", targetPort := "in" }]

abbrev readerScenario : Scenario := sampleScenario readerNodes readerEdges

theorem reader_published : readerScenario.version.Published :=
  ⟨portRegistry, fun _ _ => none, 0, { definitions := [{}], versions := [] }, _, 0, readerNodes, readerEdges, 0, rfl⟩

/-- `a` fails in `execute`. -/
def readerFailed : Option World :=
  readerScenario.after (.execute 0 0) (answers 1 true (noRows 15)) (unstarted readerNodes readerEdges)

/-- `a` succeeds in `retry_node`, which goes on with `b`. -/
def readerRetried : Option World :=
  readerFailed.bind (readerScenario.after (.retryNode 0 0 "a")
    (answers 101 false ([[], [], [0]] ++ noRows 10 ++ [[1], [], [], [0, 1]] ++ noRows 15 ++ [[0, 1]])))

/-- Nothing fails. -/
def readerOnce : Option World :=
  readerScenario.after (.execute 0 0) (answers 1 false (noRows 24)) (unstarted readerNodes readerEdges)

theorem replay_digest_reader :
    ∃ digest, readerRetried.bind (fun w => w.state.outputDigest? 0) = some digest ∧
      readerOnce.bind (fun v => v.state.outputDigest? 0) = some digest := by
  obtain ⟨w, hw⟩ : ∃ w, readerRetried = some w := Option.isSome_iff_exists.mp (by decide +kernel)
  obtain ⟨v, hv⟩ : ∃ v, readerOnce = some v := Option.isSome_iff_exists.mp (by decide +kernel)
  obtain ⟨w₁, hfailed, hretried⟩ := Option.bind_eq_some_iff.mp hw
  have hstatus : ∀ w ∈ readerRetried, w.state.runStatus? 0 = some .succeeded := by decide +kernel
  have hstatus₁ : ∀ v ∈ readerOnce, v.state.runStatus? 0 = some .succeeded := by decide +kernel
  have hbefore : ∀ w ∈ readerFailed, w.state.runStatus? 0 ≠ some .succeeded ∧
      readerScenario.missing 0 w = ["a", "b"] ∧ doneNodes (w.rows 0) = [] := by decide +kernel
  obtain ⟨hnot, hmissing, hdone⟩ := hbefore w₁ hfailed
  have hsafe : readerScenario.SafeRetry 0 "a" w₁ w := by
    refine .inr ⟨by rw [hmissing]; rfl, .inr ⟨?_, ?_, ?_, fun _ _ => .refl _⟩⟩
    · rw [hmissing]
      decide
    · rw [hdone]
      decide +kernel
    · rw [hdone]
      decide +kernel
  rw [hw, hv]
  exact replay_digest (sample_deterministic _ _) (sample_keepsSummaries _ _) reader_published 0 _ w
    (sample_fresh _ _)
    (.next (c := .retryNode 0 0 "a") (.execute (completes_of_after hfailed)) hnot rfl hsafe
      (completes_of_after hretried))
    (hstatus w hw) 0 0 _ v (sample_fresh _ _) (completes_of_after hv) (hstatus₁ v hv)

/-- A flow of one node. -/
abbrev loadScenario : Scenario := sampleScenario loadVersion.nodes []

/-- The node fails in `execute`. -/
def loadFailed : Option World :=
  loadScenario.after (.execute 0 0) (answers 1 true (noRows 15)) (unstarted loadVersion.nodes [])

/-- It succeeds in `retry_node`, which finishes the run from both rows. -/
def loadRetried : Option World :=
  loadFailed.bind (loadScenario.after (.retryNode 0 0 "load")
    (answers 101 false ([[], [], [0]] ++ noRows 10 ++ [[1], [0, 1], [], [], [], [0, 1]])))

/-- Nothing fails. -/
def loadOnce : Option World :=
  loadScenario.after (.execute 0 0) (answers 1 false (noRows 16)) (unstarted loadVersion.nodes [])

/-- A retry of the last missing node changes the digest: the failed attempt becomes part of it. -/
theorem retry_changes_digest :
    ¬ ∀ S : Scenario, S.Deterministic → S.KeepsSummaries → S.version.Published →
      S.Replays (fun _ _ _ => True) := by
  intro h
  have hpub : loadScenario.version.Published :=
    ⟨portRegistry, fun _ _ => none, 0, { definitions := [{}], versions := [] }, _, 0, loadVersion.nodes, [], 0, rfl⟩
  obtain ⟨w, hw⟩ : ∃ w, loadRetried = some w := Option.isSome_iff_exists.mp (by decide +kernel)
  obtain ⟨v, hv⟩ : ∃ v, loadOnce = some v := Option.isSome_iff_exists.mp (by decide +kernel)
  obtain ⟨w₁, hfailed, hretried⟩ := Option.bind_eq_some_iff.mp hw
  have hnot : ∀ w ∈ loadFailed, w.state.runStatus? 0 ≠ some .succeeded := by decide +kernel
  have hstatus : ∀ w ∈ loadRetried, w.state.runStatus? 0 = some .succeeded := by decide +kernel
  have hstatus₁ : ∀ v ∈ loadOnce, v.state.runStatus? 0 = some .succeeded := by decide +kernel
  have hhistory : loadScenario.History (fun _ _ _ => True) 0 (unstarted loadVersion.nodes []) w :=
    .next (c := .retryNode 0 0 "load") (.execute (completes_of_after hfailed)) (hnot w₁ hfailed) rfl trivial
      (completes_of_after hretried)
  obtain ⟨digest, hd, hd₁⟩ := h loadScenario (sample_deterministic _ _) (sample_keepsSummaries _ _) hpub 0 _ w
    (sample_fresh _ _) hhistory (hstatus w hw) 0 0 _ v (sample_fresh _ _) (completes_of_after hv) (hstatus₁ v hv)
  have hdiffer : ∀ w ∈ loadRetried, ∀ v ∈ loadOnce,
      w.state.outputDigest? 0 ≠ v.state.outputDigest? 0 := by decide +kernel
  exact hdiffer w hw v hv (hd.trans hd₁.symm)

end Irip.Flow
