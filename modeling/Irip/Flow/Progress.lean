import Irip.Flow.Results

/-!
# `Flow.Progress` — how far a run has come

The rows of a run that is executed one call at a time: those of the results so far, plus failed attempts at
the next node. `execute` and `resume` take a run from there to the end or to the next failure, and what they
store as its digest is that of a pass without failures.
-/

namespace Irip.Flow

open Table (getElem?_update)

variable {S : Scenario} {rs : List (String × ComponentResult)} {run : RunId} {w w' : World}

/-! ## Rows -/

/-- The rows of a run, in table order. -/
def World.rows (w : World) (run : RunId) : List FlowNodeExecution := w.select { run := run }

/-- The nodes that have a succeeded row. -/
def doneNodes (rows : List FlowNodeExecution) : List String := (succeededRows rows).map FlowNodeExecution.nodeId

/-- The summaries of the results, in their order, and possibly one of a failed attempt at the next node. -/
def SummariesOf (rs : List (String × ComponentResult)) (next : Option String) (d : Dict String NodeSummary) :
    Prop :=
  ∃ tail, d.entries = rs.map (fun e => (e.1, resultSummary e)) ++ tail ∧
    (tail = [] ∨ ∃ id x, next = some id ∧ tail = [(id, x)])

theorem SummariesOf.set {id : String} {d : Dict String NodeSummary} (h : SummariesOf rs (some id) d)
    (hid : id ∉ rs.map Prod.fst) (x : NodeSummary) :
    (d.set id x).entries = rs.map (fun e => (e.1, resultSummary e)) ++ [(id, x)] := by
  obtain ⟨tail, hd, htail⟩ := h
  have hkey : id ∉ (rs.map (fun e => (e.1, resultSummary e))).map Prod.fst := by
    rwa [List.map_map]
  show Dict.setEntries id x d.entries = _
  rw [hd, Dict.setEntries_append hkey]
  rcases htail with rfl | ⟨id', x', hid', rfl⟩
  · rfl
  · obtain rfl := Option.some.inj hid'
    simp [Dict.setEntries]

theorem SummariesOf.values_eq {d : Dict String NodeSummary} (h : SummariesOf rs none d) :
    d.values = rs.map resultSummary := by
  obtain ⟨tail, hd, htail⟩ := h
  rcases htail with rfl | ⟨_, _, hid, _⟩
  · unfold Dict.values
    rw [hd, List.append_nil, List.map_map]
    rfl
  · cases hid

/-- The rows of a run that has come to the results `rs`. -/
structure Scenario.RowsOf (S : Scenario) (rs : List (String × ComponentResult)) (next : Option String)
    (rows : List FlowNodeExecution) (clock : Time) : Prop where
  done : (succeededRows rows).map (fun e => (e.nodeId, e.outputSummary))
    = rs.map (fun e => (e.1, storedSummary S.jsonb e.2))
  summaries : SummariesOf rs next (storedSummaries rows)
  ordered : rows.Pairwise (fun a b => ∃ t u, a.startedAt = some t ∧ b.startedAt = some u ∧ t < u)
  started : ∀ e ∈ rows, ∃ t, e.startedAt = some t ∧ t ≤ clock

theorem Scenario.RowsOf.doneNodes_eq {next : Option String} {rows : List FlowNodeExecution} {clock : Time}
    (h : S.RowsOf rs next rows clock) : doneNodes rows = rs.map Prod.fst := by
  have hfst := congrArg (List.map Prod.fst) h.done
  rw [List.map_map, List.map_map] at hfst
  exact hfst

theorem Scenario.RowsOf.mono {next : Option String} {rows : List FlowNodeExecution} {clock clock' : Time}
    (h : S.RowsOf rs next rows clock) (hle : clock ≤ clock') : S.RowsOf rs next rows clock' where
  done := h.done
  summaries := h.summaries
  ordered := h.ordered
  started e he := by
    obtain ⟨t, ht, hclock⟩ := h.started e he
    exact ⟨t, ht, hclock.trans hle⟩

theorem storedSummaries_append (rows : List FlowNodeExecution) (e : FlowNodeExecution) :
    storedSummaries (rows ++ [e]) = (storedSummaries rows).set e.nodeId e.summary := by
  unfold storedSummaries
  rw [List.map_append]
  exact Dict.ofList_append _ _ _

theorem succeededRows_append (rows : List FlowNodeExecution) (e : FlowNodeExecution) :
    succeededRows (rows ++ [e]) = succeededRows rows ++ if e.status = .succeeded then [e] else [] := by
  unfold succeededRows
  rw [List.filter_append]
  by_cases h : e.status = .succeeded
  · simp [h]
  · simp [h]

section Attempts

variable {id : String} {rows : List FlowNodeExecution} {clock clock' t : Time} {node : FlowNode}

theorem Scenario.RowsOf.times {next : Option String} (h : S.RowsOf rs next rows clock) (ht : clock < t)
    (hclock : t ≤ clock') {e : FlowNodeExecution} (he : e.startedAt = some t) :
    (rows ++ [e]).Pairwise (fun a b => ∃ t u, a.startedAt = some t ∧ b.startedAt = some u ∧ t < u) ∧
      ∀ x ∈ rows ++ [e], ∃ t, x.startedAt = some t ∧ t ≤ clock' := by
  refine ⟨List.pairwise_append.mpr ⟨h.ordered, List.pairwise_singleton _ _, ?_⟩, ?_⟩
  · intro a ha b hb
    obtain rfl := List.mem_singleton.mp hb
    obtain ⟨u, hu, hle⟩ := h.started a ha
    exact ⟨u, t, hu, he, lt_of_le_of_lt hle ht⟩
  · intro x hx
    rcases List.mem_append.mp hx with hx | hx
    · obtain ⟨u, hu, hle⟩ := h.started x hx
      exact ⟨u, hu, (hle.trans (le_of_lt ht)).trans hclock⟩
    · obtain rfl := List.mem_singleton.mp hx
      exact ⟨t, he, hclock⟩

theorem Scenario.RowsOf.fail (h : S.RowsOf rs (some id) rows clock) (hid : id ∉ rs.map Prod.fst)
    (hnode : node.nodeId = id) (ht : clock < t) (hclock : t ≤ clock') :
    S.RowsOf rs (some id) (rows ++ [attempt run node t .failed ∅]) clock' := by
  obtain ⟨hordered, hstarted⟩ := h.times ht hclock (e := attempt run node t .failed ∅) rfl
  refine ⟨?_, ?_, hordered, hstarted⟩
  · have hsame : succeededRows (rows ++ [attempt run node t .failed ∅]) = succeededRows rows := by
      rw [succeededRows_append]
      exact List.append_nil _
    rw [hsame]
    exact h.done
  · rw [storedSummaries_append]
    subst hnode
    exact ⟨_, h.summaries.set hid _, .inr ⟨_, _, rfl, rfl⟩⟩

theorem Scenario.RowsOf.succeed (h : S.RowsOf rs (some id) rows clock) (hid : id ∉ rs.map Prod.fst)
    (hnode : node.nodeId = id) (ht : clock < t) (hclock : t ≤ clock') {result : ComponentResult}
    (hstored : storedSummary S.jsonb result = serializeOutputSummary result) (next : Option String) :
    S.RowsOf (rs ++ [(id, result)]) next
      (rows ++ [attempt run node t .succeeded (storedSummary S.jsonb result)]) clock' := by
  obtain ⟨hordered, hstarted⟩ :=
    h.times ht hclock (e := attempt run node t .succeeded (storedSummary S.jsonb result)) rfl
  subst hnode
  refine ⟨?_, ?_, hordered, hstarted⟩
  · rw [succeededRows_append, List.map_append, List.map_append, h.done]
    rfl
  · rw [storedSummaries_append]
    refine ⟨[], ?_, .inl rfl⟩
    rw [List.map_append, List.append_nil]
    show (Dict.set (storedSummaries rows) node.nodeId _).entries = _
    rw [h.summaries.set hid]
    simp [FlowNodeExecution.summary, attempt, resultSummary, hstored]

theorem Scenario.RowsOf.eq_of_perm {next : Option String} (h : S.RowsOf rs next rows clock)
    {es : List FlowNodeExecution} (hperm : es.Perm rows)
    (hsorted : es.Pairwise (fun a b => startedLe a b = true)) : es = rows := by
  have hle : rows.Pairwise (fun a b => startedLe a b = true) := by
    refine h.ordered.imp ?_
    rintro a b ⟨t, u, ha, hb, hlt⟩
    simp only [startedLe, ha, hb, decide_eq_true_eq]
    exact le_of_lt hlt
  have hnodup : (rows.map FlowNodeExecution.startedAt).Nodup := by
    refine List.pairwise_map.mpr (h.ordered.imp ?_)
    rintro a b ⟨t, u, ha, hb, hlt⟩ heq
    rw [ha, hb] at heq
    exact ne_of_lt hlt (Option.some.inj heq)
  refine List.Perm.eq_of_pairwise ?_ hsorted hle hperm
  intro a b ha hb hab hba
  have ha' : a ∈ rows := hperm.mem_iff.mp ha
  obtain ⟨t, ht, _⟩ := h.started a ha'
  obtain ⟨u, hu, _⟩ := h.started b hb
  refine List.inj_on_of_nodup_map hnodup ha' hb ?_
  simp only [startedLe, ht, hu, decide_eq_true_eq] at hab hba
  rw [ht, hu, le_antisymm hab hba]

end Attempts

/-! ## Progress -/

/-- The run executes the version of the scenario on its inputs. -/
def Scenario.Loaded (S : Scenario) (run : RunId) (w : World) : Prop :=
  ∃ r, w.state.runs[run]? = some r ∧ r.inputSnapshot = S.snapshot ∧
    w.state.versions[r.flowVersionId]? = some S.version

/-- The run has come to the results `rs`, and the nodes `rest` are missing. -/
structure Scenario.Progress (S : Scenario) (run : RunId) (rs : List (String × ComponentResult))
    (rest : List String) (w : World) : Prop where
  loaded : S.Loaded run w
  results : S.Results rs
  order : S.order = rs.map Prod.fst ++ rest
  rows : S.RowsOf rs rest.head? (w.rows run) w.clock

/-- The digest of a run. -/
def State.outputDigest? (s : State) (run : RunId) : Option String :=
  (s.runs[run]?).bind FlowRun.outputDigest

/-- The run is somewhere on its way, and if it has succeeded its digest is that of all results. -/
def Scenario.Settled (S : Scenario) (run : RunId) (w : World) : Prop :=
  ∃ rs rest, S.Progress run rs rest w ∧
    (w.state.runStatus? run = some .succeeded →
      rest = [] ∧ w.state.outputDigest? run = some (S.digest rs))

section Progress

variable {rest : List String}

theorem Scenario.Progress.doneNodes_eq (h : S.Progress run rs rest w) :
    doneNodes (w.rows run) = rs.map Prod.fst := h.rows.doneNodes_eq

theorem Scenario.Progress.of_same (h : S.Progress run rs rest w)
    (hexec : w'.state.executions = w.state.executions) (hclock : w.clock ≤ w'.clock)
    (hload : S.Loaded run w') : S.Progress run rs rest w' where
  loaded := hload
  results := h.results
  order := h.order
  rows := by
    unfold World.rows World.select
    rw [hexec]
    exact h.rows.mono hclock

theorem Scenario.Loaded.update (h : S.Loaded run w) (i : RunId) (values : RunValues) (clock : Time) :
    S.Loaded run
      { state := { w.state with runs := Table.update w.state.runs [i] values.stmt }, clock := clock } := by
  obtain ⟨r, hr, hsnap, hv⟩ := h
  refine ⟨if run ∈ [i] then values.stmt.apply r else r, ?_, ?_⟩
  · rw [getElem?_update, hr]
    rfl
  · by_cases hi : run ∈ [i]
    · rw [if_pos hi]
      exact ⟨hsnap, hv⟩
    · rw [if_neg hi]
      exact ⟨hsnap, hv⟩

/-- What `execute` and `resume` do before the loop. -/
theorem Scenario.Progress.start (h : S.Progress run rs rest w) (values : RunValues) {t : Time}
    (ht : w.clock ≤ t) (events : List Bool) (cancelEvents : Dict (ServiceId × RunId) EventId) :
    S.Progress run rs rest
      { state := { w.state with runs := Table.update w.state.runs [run] values.stmt, events := events,
                                cancelEvents := cancelEvents },
        clock := t } := by
  obtain ⟨r, hr, hsnap, hv⟩ := h.loaded.update run values t
  exact h.of_same rfl ht ⟨r, hr, hsnap, hv⟩

theorem rows_push (node : FlowNode) (t : Time) (status : NodeStatus) (summary : JsonDict) (clock : Time) :
    (w.push (attempt run node t status summary) clock).rows run
      = w.rows run ++ [attempt run node t status summary] := by
  unfold World.rows World.select World.push
  rw [List.filter_append]
  simp [ExecutionQuery.selects, attempt]

variable (hsort : topologicalSort S.version.nodes S.version.edges = .ok S.order)

include hsort

theorem Scenario.Progress.not_mem (h : S.Progress run rs rest w) {id : String} (hid : id ∈ rest) :
    id ∉ rs.map Prod.fst := by
  have hnodup := topologicalSort_nodup hsort
  rw [h.order, List.nodup_append] at hnodup
  intro hmem
  exact hnodup.2.2 id hmem id hid rfl

theorem Scenario.Progress.nodup (h : S.Progress run rs rest w) : (rs.map Prod.fst).Nodup := by
  have hnodup := topologicalSort_nodup hsort
  rw [h.order, List.nodup_append] at hnodup
  exact hnodup.1

theorem exists_node {id : String} (hid : id ∈ S.order) :
    ∃ node, (nodeMapOf S.version.nodes).get? id = some node :=
  exists_nodeMapOf ((topologicalSort_perm hsort).mem_iff.mp hid)

theorem Scenario.Progress.fail {id : String} (h : S.Progress run rs (id :: rest) w) {node : FlowNode}
    (hnode : node.nodeId = id) {t clock : Time} (ht : w.clock < t) (hclock : t ≤ clock) :
    S.Progress run rs (id :: rest) (w.push (attempt run node t .failed ∅) clock) where
  loaded := h.loaded
  results := h.results
  order := h.order
  rows := by
    rw [rows_push]
    exact h.rows.fail (h.not_mem hsort List.mem_cons_self) hnode ht hclock

theorem Scenario.Progress.succeed (hkeep : S.KeepsSummaries) {id : String}
    (h : S.Progress run rs (id :: rest) w) {node : FlowNode} (hnode : node.nodeId = id) {t clock : Time}
    (ht : w.clock < t) (hclock : t ≤ clock) {result : ComponentResult}
    (hresult : S.Results (rs ++ [(id, result)])) :
    S.Progress run (rs ++ [(id, result)]) rest
      (w.push (attempt run node t .succeeded (storedSummary S.jsonb result)) clock) where
  loaded := h.loaded
  results := hresult
  order := by
    rw [h.order]
    simp
  rows := by
    rw [rows_push]
    have hstored := hresult.stored hkeep (List.mem_append_right _ (List.mem_singleton.mpr rfl))
    exact h.rows.succeed (h.not_mem hsort List.mem_cons_self) hnode ht hclock hstored rest.head?

omit hsort

theorem settled_of_finished (h : S.Progress run rs rest w) {status : RunStatus} {summaries : List NodeSummary}
    (hfin : Finished run S.version.digest status summaries w w')
    (hsuccess : status = .succeeded → rest = [] ∧ summaries = rs.map resultSummary) : S.Settled run w' := by
  obtain ⟨r, hr, hsnap, hv⟩ := h.loaded
  obtain ⟨r', hr', hpinned, hstatus, hdigest⟩ := hfin.row r hr
  obtain ⟨hversion, _, hsnap'⟩ := Prod.mk.inj hpinned |>.imp_right Prod.mk.inj
  refine ⟨rs, rest, h.of_same hfin.executions hfin.clock ⟨r', hr', hsnap'.trans hsnap, ?_⟩, ?_⟩
  · rw [hfin.versions, hversion]
    exact hv
  · intro hst
    have hsucceeded : status = .succeeded := by
      unfold State.runStatus? at hst
      rw [hr', Option.map_some, hstatus] at hst
      exact Option.some.inj hst
    obtain ⟨hrest, hsummaries⟩ := hsuccess hsucceeded
    refine ⟨hrest, ?_⟩
    unfold State.outputDigest? Scenario.digest
    rw [hr', Option.bind_some, hdigest hsucceeded, hsnap, hsummaries]

end Progress

/-! ## Calls -/

/-- What the loop gets from `execute` and `resume`. -/
def Scenario.context (S : Scenario) (run : RunId) (jobId : Option Jobs.JobId) (cancelEvent : EventId)
    (succeededNodes : List String) : LoopContext :=
  { run := run, nodeMap := nodeMapOf S.version.nodes, inputSnapshot := S.snapshot, jobId := jobId,
    versionDigest := S.version.digest, cancelEvent := cancelEvent, succeededNodes := succeededNodes }

theorem does_skip {Q : Except Exn Unit → World → Prop} {c : LoopContext} {pre order : List String}
    {outputs : Dict String JsonDict} {summaries : Dict String NodeSummary}
    (hpre : ∀ id ∈ pre, id ∈ c.succeededNodes)
    (hcancel : S.Does Q (finish c.run c.jobId c.versionDigest .cancelled summaries.values) w)
    (hloop : S.Does Q (runNodeLoop c order outputs summaries) w) :
    S.Does Q (runNodeLoop c (pre ++ order) outputs summaries) w := by
  induction pre with
  | nil => exact hloop
  | cons id pre ih =>
    rw [List.cons_append, runNodeLoop]
    refine does_ask fun cancelled w₁ hsem => ?_
    obtain rfl := sem_isSet hsem
    split
    · exact hcancel
    · rw [if_pos (hpre id List.mem_cons_self)]
      exact ih fun id' hid' => hpre id' (List.mem_cons_of_mem _ hid')

section Calls

variable (hdet : S.Deterministic) (hkeep : S.KeepsSummaries)
  (hsort : topologicalSort S.version.nodes S.version.edges = .ok S.order)

include hdet hkeep hsort

/-- **The loop over the missing nodes.** -/
theorem does_runNodeLoop (restored : List String) (hread : S.Restorable restored)
    (jobId : Option Jobs.JobId) (cancelEvent : EventId) {rest : List String}
    {outputs : Dict String JsonDict} {summaries : Dict String NodeSummary} (h : S.Progress run rs rest w)
    (hseen : S.Seen restored rs outputs) (hsum : SummariesOf rs rest.head? summaries)
    (hnew : ∀ id ∈ rest, id ∉ restored) :
    S.Does (fun _ w' => S.Settled run w')
      (runNodeLoop (S.context run jobId cancelEvent restored) rest outputs summaries) w := by
  induction rest generalizing rs outputs summaries w with
  | nil =>
    refine (does_finish _ _ _ _ _).mono fun _ w' hfin => ?_
    exact settled_of_finished h hfin fun _ => ⟨rfl, hsum.values_eq⟩
  | cons id rest ih =>
    rw [runNodeLoop]
    refine does_ask fun cancelled w₁ hsem => ?_
    obtain rfl := sem_isSet hsem
    split
    · refine (does_finish _ _ _ _ _).mono fun _ w' hfin => ?_
      exact settled_of_finished h hfin fun hst => nomatch hst
    have hid : id ∉ (S.context run jobId cancelEvent restored).succeededNodes := hnew id List.mem_cons_self
    obtain ⟨node, hnode⟩ : ∃ node, (nodeMapOf S.version.nodes).get? id = some node := by
      refine exists_node hsort ?_
      rw [h.order]
      exact List.mem_append_right _ List.mem_cons_self
    have hnodeId := (nodeMapOf_get? hnode).2
    have hget : (S.context run jobId cancelEvent restored).nodeMap.get? id = some node := hnode
    rw [if_neg hid, hget]
    refine does_bind (does_executeSingleNode _ _ _) ?_ fun _ _ hfalse => hfalse.elim
    rintro result w' ⟨t, clock, ht, hclock, ⟨rfl, rfl⟩ | ⟨params, hparams, rfl, rfl⟩⟩
    · -- the attempt failed, and so does the run
      refine (does_finish _ _ _ _ _).mono fun _ w' hfin => ?_
      exact settled_of_finished (h.fail hsort hnodeId ht hclock) hfin fun hst => nomatch hst
    · have hresult := h.results.next hdet hkeep hseen hread hnode hid (.refl _)
        hparams
      refine ih (h.succeed hsort hkeep hnodeId ht hclock hresult) (hseen.set hid _) ?_
        fun id' hid' => hnew id' (List.mem_cons_of_mem _ hid')
      refine ⟨[], ?_, .inl rfl⟩
      rw [List.map_append, List.append_nil]
      exact hsum.set (h.not_mem hsort List.mem_cons_self) _

/-- **`execute` on a run without rows.** -/
theorem does_execute (svc : ServiceId) (h : S.Progress run [] S.order w) :
    S.Does (fun _ w' => S.Settled run w') (execute svc run) w := by
  obtain ⟨r, hr, hsnap, hv⟩ := h.loaded
  refine does_loadRun hr hv ?_
  refine does_ask fun t w₁ hsem => ?_
  obtain ⟨ht, rfl⟩ := sem_now hsem
  refine does_ask fun _ w₂ hsem => ?_
  obtain rfl := sem_updateRun hsem
  refine does_ask fun cancelEvent w₃ hsem => ?_
  obtain ⟨events, cancelEvents, rfl⟩ := sem_newEvent hsem
  simp only [hsort, Prog.lift_ok, Prog.ret_bind]
  rw [hsnap]
  refine does_runNodeLoop hdet hkeep hsort [] ?_ r.jobId cancelEvent
    (h.start _ (le_of_lt ht) events cancelEvents) ?_ ⟨[], rfl, .inl rfl⟩ fun _ _ => List.not_mem_nil
  · exact fun _ _ _ _ _ _ _ hmem => nomatch hmem
  · exact fun _ => rfl

/-- **`resume`.** -/
theorem does_resume (svc : ServiceId) {rest : List String} (h : S.Progress run rs rest w)
    (hread : S.Restorable (rs.map Prod.fst)) :
    S.Does (fun _ w' => S.Settled run w') (resume svc run) w := by
  obtain ⟨r, hr, hsnap, hv⟩ := h.loaded
  refine does_loadRun hr hv ?_
  refine does_ask fun existing w₁ hsem => ?_
  obtain ⟨hperm, hordered, rfl⟩ := sem_selectExecutions hsem
  obtain rfl : existing = w₁.rows run := h.rows.eq_of_perm hperm (hordered rfl)
  refine does_ask fun t w₂ hsem => ?_
  obtain ⟨ht, rfl⟩ := sem_now hsem
  refine does_ask fun _ w₃ hsem => ?_
  obtain rfl := sem_updateRun hsem
  simp only [hsort, Prog.lift_ok, Prog.ret_bind]
  refine does_ask fun cancelEvent w₄ hsem => ?_
  obtain ⟨events, cancelEvents, rfl⟩ := sem_newEvent hsem
  have hdone : (succeededRows (w₁.rows run)).map FlowNodeExecution.nodeId = rs.map Prod.fst := h.doneNodes_eq
  rw [hsnap, hdone, h.order]
  refine does_skip (fun id hid => hid) ?_ ?_
  · refine (does_finish _ _ _ _ _).mono fun _ w' hfin => ?_
    exact settled_of_finished (h.start _ (le_of_lt ht) events cancelEvents) hfin fun hst => nomatch hst
  · refine does_runNodeLoop hdet hkeep hsort _ hread r.jobId cancelEvent
      (h.start _ (le_of_lt ht) events cancelEvents) ?_ h.rows.summaries ?_
    · exact seen_restored (h.nodup hsort) (h.rows.done ▸ .refl _)
    · exact fun id hid => h.not_mem hsort hid

end Calls

end Irip.Flow
