import Irip.Flow.System
import Irip.Flow.Validation

/-!
# `Flow.Binding` — where the inputs of a node come from

The order of execution is computed from the edges; the data flows along the input bindings, which no
validator compares with the edges.
-/

namespace Irip.Flow

open Prog (Ok Event logged)
open Runs (final play play_run)

/-! ## Success in a log -/

/-- The log contains a successful execution of the node: its row is inserted and, before any other row is,
becomes `succeeded`. -/
def SucceededIn (run : RunId) (id : String) (h : Log) : Prop :=
  ∃ (h₁ : Log) (e : ExecutionId) (h₂ : Log) (values : ExecutionValues) (h₃ : Log),
    h = h₁ ++ ⟨.insertExecution run id, e⟩ :: (h₂ ++ ⟨.updateExecution e values, .ok ()⟩ :: h₃) ∧
      values.status = .succeeded ∧ ∀ ev ∈ h₂, ev.op.inserts = none

/-- The call has read a succeeded row of the node. -/
def ReadSucceeded (run : RunId) (id : String) (h : Log) : Prop :=
  ∃ rows : List FlowNodeExecution,
    (⟨.selectExecutions { run := run, byStartedAt := true }, rows⟩ : Event Op Res) ∈ h ∧
      ∃ e ∈ rows, e.nodeId = id ∧ e.status = .succeeded

theorem SucceededIn.mono {run : RunId} {id : String} {h h' : Log} (hs : SucceededIn run id h)
    (hpre : h <+: h') : SucceededIn run id h' := by
  obtain ⟨h₁, e, h₂, values, h₃, rfl, hv, hno⟩ := hs
  obtain ⟨h₄, rfl⟩ := hpre
  exact ⟨h₁, e, h₂, values, h₃ ++ h₄, by simp, hv, hno⟩

theorem ReadSucceeded.mono {run : RunId} {id : String} {h h' : Log} (hs : ReadSucceeded run id h)
    (hpre : h <+: h') : ReadSucceeded run id h' := by
  obtain ⟨rows, hmem, he⟩ := hs
  exact ⟨rows, hpre.subset hmem, he⟩

theorem SucceededIn.inserted {run : RunId} {id : String} {h : Log} (hs : SucceededIn run id h) :
    ∃ ev ∈ h, ev.op.inserts = some (run, id) := by
  obtain ⟨h₁, e, h₂, values, h₃, rfl, _⟩ := hs
  exact ⟨⟨.insertExecution run id, e⟩, by simp, rfl⟩

/-! ## The loop -/

section Loop

variable {A : (o : Op) → Res o → Prop}

/-- The guarantee of a call: when it inserts a row, `P` holds of the node and of the log so far. -/
def AtInsert (P : RunId → String → Log → Prop) (o : Op) (h : Log) (_ : Res o) (_ : Log) : Prop :=
  ∀ run id, o.inserts = some (run, id) → P run id h

variable {P : RunId → String → Log → Prop} {α : Type} {Q : Except Exn α → Log → Prop} {h : Log}

theorem ok_ask {o : Op} {f : Res o → M α} (ho : o.inserts = none)
    (hf : ∀ r, A o r → Ok (logged A) Eq (AtInsert P) Q (f r) (h ++ [⟨o, r⟩])) :
    Ok (logged A) Eq (AtInsert P) Q (ask o >>= f) h := by
  refine Ok.perform_bind ?_
  rintro _ rfl r _ ⟨hA, rfl⟩
  refine ⟨fun run id he => ?_, hf r hA⟩
  rw [ho] at he
  cases he

theorem ok_updateExecution {e : ExecutionId} {values : ExecutionValues} {f : Unit → M α}
    (hf : Ok (logged A) Eq (AtInsert P) Q (f ()) (h ++ [⟨.updateExecution e values, .ok ()⟩]))
    (herr : ∀ x h', Q (.error x) h') :
    Ok (logged A) Eq (AtInsert P) Q (updateExecution e values >>= f) h := by
  refine ok_ask rfl fun r _ => Ok.lift_bind ?_ (fun x _ h' _ => herr x h')
  rintro ⟨⟩ rfl
  exact hf

theorem ok_of_issues {p : M α} (hp : p.Issues (fun o => o.inserts = none)) (hQ : ∀ out h', Q out h') :
    Ok (logged A) Eq (AtInsert P) Q p h := by
  induction p generalizing h with
  | ret a | raise e => exact fun h' _ => hQ _ h'
  | op o k ih => exact ok_ask hp.1 fun r _ => ih r (hp.2 r)

/-- **One node.** The guarantee is due at its insertion; a success is in the log. -/
theorem ok_executeSingleNode {run : RunId} {node : FlowNode} {inputs : JsonDict}
    (hP : ∀ h', h <+: h' → P run node.nodeId h') :
    Ok (logged A) Eq (AtInsert P)
      (fun out h' => ∀ result, out = .ok result → result.status = .succeeded →
        SucceededIn run node.nodeId h')
      (executeSingleNode run node inputs) h := by
  refine ok_ask rfl fun nowStart _ => Ok.perform_bind ?_
  rintro _ rfl e _ ⟨_, rfl⟩
  refine ⟨?_, ?_⟩
  · intro run' id hins
    obtain ⟨rfl, rfl⟩ := answer_inj hins
    exact hP _ (List.prefix_append _ _)
  · refine ok_updateExecution ?_ (fun _ _ _ h => nomatch h)
    refine Ok.rescue (fun _ => rfl)
      (P := fun out h' => ∀ result, out = .ok result → SucceededIn run node.nodeId h') ?_ ?_ ?_
    · -- the `try` block: its last event is the successful UPDATE of the inserted row
      refine ok_ask rfl fun found _ => Ok.lift_bind (fun manifest _ => ?_) (fun _ _ _ _ _ h => nomatch h)
      refine Ok.lift_bind (fun params _ => ?_) (fun _ _ _ _ _ h => nomatch h)
      refine ok_ask rfl fun ran _ => Ok.lift_bind (fun result _ => ?_) (fun _ _ _ _ _ h => nomatch h)
      refine ok_ask rfl fun nowEnd _ => ok_updateExecution ?_ (fun _ _ _ h => nomatch h)
      rintro _ rfl _ _
      exact ⟨h ++ [⟨.now, nowStart⟩], e,
        [⟨.updateExecution e { status := .running, startedAt := some nowStart }, .ok ()⟩,
         ⟨.getLatest node.componentName, found⟩, ⟨.runComponent manifest params, ran⟩, ⟨.now, nowEnd⟩],
        { status := .succeeded, outputSummary := some (serializeOutputSummary result) }, [],
        by simp [List.append_assoc], rfl, by simp [Op.inserts]⟩
    · intro x h' _
      refine ok_ask rfl fun _ _ => ok_updateExecution ?_ (fun _ _ _ h => nomatch h)
      rintro _ rfl result hres hst
      obtain rfl := Except.ok.inj hres
      cases hst
    · intro a h' hs result hres _
      exact hs result hres

theorem ok_finish (run : RunId) (jobId : Option Jobs.JobId) (digest : String) (status : RunStatus)
    (summaries : List NodeSummary) {Q : Except Exn Unit → Log → Prop} (hQ : ∀ out h', Q out h') :
    Ok (logged A) Eq (AtInsert P) Q (finish run jobId digest status summaries) h :=
  ok_of_issues (issues_finish_of (P := (·.inserts = none)) rfl rfl (fun _ => rfl) (fun _ _ => rfl) _ _ _ _) hQ

/-- **The loop reaches a node when everything upstream of it is done.** `D` is any reading of "done" that the
log cannot take back; it must hold of the nodes that are skipped and of those executed successfully. -/
theorem ok_runNodeLoop {nodes : List FlowNode} {edges : List FlowEdge} {order : List String}
    (hsort : topologicalSort nodes edges = .ok order) {ctx : LoopContext} (hmap : ctx.nodeMap = nodeMapOf nodes)
    {D : String → Log → Prop} (hmono : ∀ {id h h'}, D id h → h <+: h' → D id h')
    (hsucc : ∀ {id h}, SucceededIn ctx.run id h → D id h)
    (hP : ∀ {id h}, (∀ src, Upstream edges src id → D src h) → P ctx.run id h)
    {Q : Except Exn Unit → Log → Prop} (hQ : ∀ out h', Q out h') (rest done : List String)
    (hsplit : order = done ++ rest) (outputs : Dict String JsonDict) (summaries : Dict String NodeSummary)
    (hdone : ∀ id ∈ done, D id h) (hskip : ∀ id ∈ ctx.succeededNodes, D id h) :
    Ok (logged A) Eq (AtInsert P) Q (runNodeLoop ctx rest outputs summaries) h := by
  induction rest generalizing done outputs summaries h with
  | nil => exact ok_finish _ _ _ _ _ hQ
  | cons id rest ih =>
    have hsplit' : order = (done ++ [id]) ++ rest := by rw [hsplit]; simp
    refine ok_ask rfl fun cancelled _ => ?_
    have hgrow : ∀ {x}, D x h → D x (h ++ [⟨.isSet ctx.cancelEvent, cancelled⟩]) :=
      fun hx => hmono hx (List.prefix_append _ _)
    split
    · exact ok_finish _ _ _ _ _ hQ
    · split
      · -- a node that succeeded in an earlier call
        next hin =>
          refine ih _ hsplit' _ _ ?_ (fun x hx => hgrow (hskip x hx))
          intro x hx
          rcases List.mem_append.mp hx with hx | hx
          · exact hgrow (hdone x hx)
          · obtain rfl := List.mem_singleton.mp hx
            exact hgrow (hskip x hin)
      · cases hnode : ctx.nodeMap.get? id with
        | none => exact fun h' _ => hQ _ h'
        | some node =>
          have hid : node.nodeId = id := (nodeMapOf_get? (hmap ▸ hnode)).2
          have hone : ∀ h', h ++ [⟨.isSet ctx.cancelEvent, cancelled⟩] <+: h' → P ctx.run node.nodeId h' := by
            intro h' hpre
            refine hP fun src hup => ?_
            have hmem := topologicalSort_upstream hsort hsplit (hid ▸ hup)
            exact hmono (hgrow (hdone src hmem)) hpre
          refine Ok.bind (fun _ => rfl) (ok_executeSingleNode hone).log_grows ?_ (fun _ h' _ => hQ _ h')
          rintro result h' ⟨hres, hpre⟩
          dsimp only
          split
          · exact ok_finish _ _ _ _ _ hQ
          · next hst =>
              have hs : SucceededIn ctx.run id h' := hid ▸ hres result rfl (not_not.mp hst)
              refine ih _ hsplit' _ _ ?_ (fun x hx => hmono (hgrow (hskip x hx)) hpre)
              intro x hx
              rcases List.mem_append.mp hx with hx | hx
              · exact hmono (hgrow (hdone x hx)) hpre
              · obtain rfl := List.mem_singleton.mp hx
                exact hsucc hs

end Loop

/-! ## Calls -/

section Calls

variable {s : State} {run : RunId} {v : FlowDefinitionVersion}

theorem version?_eq_some (hv : s.version? run = some v) {r : Option FlowRun}
    (hr : r.map FlowRun.pinned = (s.runs[run]?).map FlowRun.pinned) :
    ∃ row, r = some row ∧ s.versions[row.flowVersionId]? = some v := by
  obtain ⟨row₀, hrow₀, hver⟩ := Option.bind_eq_some_iff.mp hv
  rw [hrow₀, Option.map_some] at hr
  obtain ⟨row, rfl, hpin⟩ := Option.map_eq_some_iff.mp hr
  have hid : row.flowVersionId = row₀.flowVersionId := congrArg Prod.fst hpin
  exact ⟨row, rfl, hid ▸ hver⟩

theorem ok_loadRun {P : RunId → String → Log → Prop} {h : Log} (hv : s.version? run = some v) :
    Ok (logged (Faithful s)) Eq (AtInsert P) (fun out _ => ∀ x, out = .ok x → x.2 = v) (loadRun run) h := by
  refine ok_ask rfl fun found hfound => ?_
  obtain ⟨row, rfl, hver⟩ := version?_eq_some hv hfound
  refine ok_ask rfl fun version hversion => ?_
  obtain rfl : version = some v := hversion.trans hver
  rintro _ rfl x hx
  obtain rfl := Except.ok.inj hx
  rfl

/-- What a call guarantees when it inserts a row: everything upstream of the node has been executed
successfully by the call itself or, in a resumed run, by an earlier one. -/
def BindingsDone (s : State) (c : Call) (_ : RunId) (id : String) (h : Log) : Prop :=
  match c with
  | .execute _ run => ∀ v, s.version? run = some v → ∀ src, Upstream v.edges src id → SucceededIn run src h
  | .resume _ run =>
    ∀ v, s.version? run = some v → ∀ src, Upstream v.edges src id →
      SucceededIn run src h ∨ ReadSucceeded run src h
  | _ => True

theorem ok_trivial {A : (o : Op) → Res o → Prop} {P : RunId → String → Log → Prop}
    (hP : ∀ run id h, P run id h) {α : Type} {Q : Except Exn α → Log → Prop} (hQ : ∀ out h, Q out h)
    (p : M α) (h : Log) : Ok (logged A) Eq (AtInsert P) Q p h := by
  induction p generalizing h with
  | ret a | raise e => exact fun h' _ => hQ _ h'
  | op o k ih => exact fun h' _ r h₂ _ => ⟨fun _ _ _ => hP _ _ _, ih r h₂⟩

theorem ok_execute (svc : ServiceId) (hv : s.version? run = some v) :
    Ok (logged (Faithful s)) Eq (AtInsert (BindingsDone s (.execute svc run))) (fun _ _ => True)
      (execute svc run) [] := by
  refine Ok.bind (fun _ => rfl) (ok_loadRun hv) ?_ (fun _ _ _ => trivial)
  rintro ⟨r, v'⟩ h hload
  obtain rfl : v' = v := hload _ rfl
  refine ok_ask rfl fun now _ => ok_ask rfl fun _ _ => ok_ask rfl fun cancelEvent _ => ?_
  refine Ok.lift_bind (fun order hsort => ?_) (fun _ _ _ _ => trivial)
  refine ok_runNodeLoop hsort rfl (D := SucceededIn run) (fun hs hpre => hs.mono hpre) (fun hs => hs) ?_
    (fun _ _ => trivial) order [] rfl _ _ (List.forall_mem_nil _)
    (List.forall_mem_nil _)
  intro id h' hup w hw
  rw [hv] at hw
  obtain rfl := Option.some.inj hw
  exact hup

theorem ok_resume (svc : ServiceId) (hv : s.version? run = some v) :
    Ok (logged (Faithful s)) Eq (AtInsert (BindingsDone s (.resume svc run))) (fun _ _ => True)
      (resume svc run) [] := by
  refine Ok.bind (fun _ => rfl) (ok_loadRun hv) ?_ (fun _ _ _ => trivial)
  rintro ⟨r, v'⟩ h hload
  obtain rfl : v' = v := hload _ rfl
  refine ok_ask rfl fun existing _ => ok_ask rfl fun now _ => ok_ask rfl fun _ _ => ?_
  refine Ok.lift_bind (fun order hsort => ?_) (fun _ _ _ _ => trivial)
  refine ok_ask rfl fun cancelEvent _ => ?_
  refine ok_runNodeLoop hsort rfl (D := fun id h => SucceededIn run id h ∨ ReadSucceeded run id h)
    (fun hs hpre => hs.imp (fun h => h.mono hpre) (fun h => h.mono hpre)) .inl ?_
    (fun _ _ => trivial) order [] rfl _ _ (List.forall_mem_nil _) ?_
  · intro id h' hup w hw
    rw [hv] at hw
    obtain rfl := Option.some.inj hw
    exact hup
  · -- the skipped nodes are those of the succeeded rows it has read
    intro id hid
    obtain ⟨e, he, rfl⟩ := List.mem_map.mp hid
    obtain ⟨hrows, hst⟩ := List.mem_filter.mp he
    refine .inr ⟨existing, ?_, e, hrows, rfl, of_decide_eq_true hst⟩
    simp

theorem ok_prog (s : State) (c : Call) :
    Ok (logged (Faithful s)) Eq (AtInsert (BindingsDone s c)) (fun _ _ => True) c.prog [] := by
  cases c with
  | cancel svc run | retryNode svc run node => exact ok_trivial (fun _ _ _ => trivial) (fun _ _ => trivial) _ _
  | execute svc run =>
    cases hv : s.version? run with
    | none =>
      refine ok_trivial (fun _ _ _ w hw => ?_) (fun _ _ => trivial) _ _
      rw [hv] at hw
      cases hw
    | some v =>
      exact Ok.bind (fun _ => rfl) (ok_execute svc hv) (fun _ _ _ _ _ => trivial) (fun _ _ _ => trivial)
  | resume svc run =>
    cases hv : s.version? run with
    | none =>
      refine ok_trivial (fun _ _ _ w hw => ?_) (fun _ _ => trivial) _ _
      rw [hv] at hw
      cases hw
    | some v =>
      exact Ok.bind (fun _ => rfl) (ok_resume svc hv) (fun _ _ _ _ _ => trivial) (fun _ _ _ => trivial)

end Calls

/-! ## Runs -/

/-- The log of call `i` in the run that performs `acts` from `s`. -/
def callLog (jsonb : Json → Json) (s : State) (acts : List Action) (i : Nat) : Log :=
  Pool.log (handle jsonb) i (play (step jsonb) (start s) acts)

/-- What call `i` of that run is a call of. -/
def callAt (jsonb : Json → Json) (s : State) (acts : List Action) (i : Nat) : Option Call :=
  ((final (start s) (play (step jsonb) (start s) acts)).threads[i]?).map Thread.call

/-- A binding of the node names the output of the node `src`. -/
def FlowDefinitionVersion.Binds (v : FlowDefinitionVersion) (id src : String) : Prop :=
  ∃ node ∈ v.nodes, node.nodeId = id ∧
    ∃ binding ∈ node.inputBindings.values, ∃ srcPort, splitBinding binding = some (src, srcPort)

/-- **A binding along the edges finds its source executed.** In every run of the system, when the loop of
`execute` or `resume` reaches a node, every binding `src:port` of the node whose source has a path of
edges to the node names a node that the loop has already executed successfully or, in a resumed run,
one that it has read as succeeded. -/
theorem bindings_available (jsonb : Json → Json) (s : State) (acts : List Action) (i n : Nat) (id : String)
    {c : Call} {svc : ServiceId} {run : RunId} {src : String} {v : FlowDefinitionVersion}
    (hcall : callAt jsonb s acts i = some c) (hc : c = .execute svc run ∨ c = .resume svc run)
    (hv : s.version? run = some v)
    (hreach : ((callLog jsonb s acts i)[n]?).bind (fun ev => ev.op.inserts) = some (run, id))
    (hbind : v.Binds id src ∧ Upstream v.edges src id) :
    SucceededIn run src ((callLog jsonb s acts i).take n) ∨
      (c = .resume svc run ∧ ReadSucceeded run src ((callLog jsonb s acts i).take n)) := by
  obtain ⟨ev, hev, hins⟩ := Option.bind_eq_some_iff.mp hreach
  obtain ⟨t, ht, rfl⟩ := Option.map_eq_some_iff.mp hcall
  obtain ⟨hlt, hget⟩ := List.getElem?_eq_some_iff.mp hev
  have hsplit : callLog jsonb s acts i
      = (callLog jsonb s acts i).take n ++ ev :: (callLog jsonb s acts i).drop (n + 1) := by
    rw [← hget, ← List.drop_eq_getElem_cons hlt, List.take_append_drop]
  have hG := Pool.log_ok (ok_prog s) (play_run (start s) acts) (faithful_run (play_run (start s) acts))
    (h := []) (fun _ _ h => by simp [start] at h) (fun _ => rfl) ht _ ev _ hsplit run id hins
  rcases hc with hc | hc
  · rw [hc] at hG
    exact .inl (hG v hv src hbind.2)
  · rw [hc] at hG
    exact (hG v hv src hbind.2).imp (fun h => h) (fun h => ⟨hc, h⟩)

/-- Two nodes joined by an edge and by the binding that goes with it. -/
def pairVersion : FlowDefinitionVersion :=
  { flowDefinitionId := 0, version := 1,
    nodes := [{ nodeId := "a", componentName := "csv", componentVersion := "1" },
              { nodeId := "b", componentName := "csv", componentVersion := "1",
                inputBindings := .ofList [("in", "a:out")] }],
    edges := [{ sourceNode := "a", sourcePort := "out", targetNode := "b", targetPort := "in" }],
    randomSeed := 0, digest := "d", publishedAt := 0 }

/-- `execute`, up to its `n`-th operation. -/
def executeFor (n : Nat) : List Action := .call (.execute 0 0) :: go 0 n succeeds

/-- The loop reaches `b` with its sixteenth operation, after `a` has succeeded. -/
theorem bindings_available_pair :
    SucceededIn 0 "a" ((callLog id (freshState pairVersion) (executeFor 16) 0).take 15) ∨
      (Call.execute 0 0 = .resume 0 0 ∧
        ReadSucceeded 0 "a" ((callLog id (freshState pairVersion) (executeFor 16) 0).take 15)) :=
  bindings_available id (freshState pairVersion) (executeFor 16) 0 15 "b" (v := pairVersion)
    (by decide +kernel) (.inl rfl) rfl (by decide +kernel)
    ⟨⟨_, List.mem_cons_of_mem _ List.mem_cons_self, rfl, "a:out", by decide +kernel, "out", by decide +kernel⟩,
     .single ⟨_, List.mem_cons_self, rfl, rfl⟩⟩

/-- A flow whose only node is bound to its own output. -/
def loopNode : FlowNode :=
  { nodeId := "a", componentName := "csv", componentVersion := "1",
    inputBindings := .ofList [("in", "a:out")] }

/-- Every component exists, without ports and parameters. -/
def anyComponent : Registry := fun _ _ =>
  .ok { inputPorts := [], outputPorts := [], manifest := .ok { name := "csv" } }

/-- Publishing accepts bindings no edge stands for: the node is run before its own output exists. -/
theorem binding_dangling :
    ¬ ∀ (registry : Registry) (schemaError : Json → JsonDict → Option String) (now : Time)
        (db db' : DefinitionDb) (definition : Nat) (nodes : List FlowNode) (edges : List FlowEdge)
        (randomSeed : Int) (v : FlowDefinitionVersion),
      publishVersion registry schemaError now db definition nodes edges randomSeed = .ok (v, db') →
      ∀ (jsonb : Json → Json) (s : State) (acts : List Action) (i n : Nat) (svc : ServiceId) (run : RunId)
        (id src : String),
      callAt jsonb s acts i = some (.execute svc run) → s.version? run = some v →
      ((callLog jsonb s acts i)[n]?).bind (fun ev => ev.op.inserts) = some (run, id) → v.Binds id src →
      SucceededIn run src ((callLog jsonb s acts i).take n) := by
  intro h
  have hs := h anyComponent (fun _ _ => none) 0 { definitions := [{}], versions := [] } _ 0 [loopNode] [] 0 _ rfl
    id (freshState _) (executeFor 8) 0 7 0 0 "a" "a" (by decide +kernel) rfl (by decide +kernel)
    ⟨_, List.mem_cons_self, rfl, "a:out", by decide +kernel, "out", by decide +kernel⟩
  obtain ⟨ev, hev, hins⟩ := hs.inserted
  revert ev
  decide +kernel

end Irip.Flow
