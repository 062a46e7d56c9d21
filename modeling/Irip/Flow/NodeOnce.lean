import Irip.Flow.System

/-!
# `Flow.NodeOnce` — when a node succeeds at most once

`resume` skips the nodes that have a succeeded row; `execute` looks at no rows, and `retry_node` at one row of
its node, whichever the database returns first.
-/

namespace Irip.Flow

open Prog (Ok)
open Runs (Run Transition play play_run)
open Table (Update update getElem?_update)

/-! ## Rows of a run -/

/-- Row `e`, if it belongs to the run. -/
def State.runRow (s : State) (r : RunId) (e : ExecutionId) : Option FlowNodeExecution :=
  (s.executions[e]?).filter (fun row => row.flowRunId = r)

/-- The node has a succeeded row in the run. -/
def State.HasSucceeded (s : State) (r : RunId) (n : String) : Prop :=
  ∃ e row, s.runRow r e = some row ∧ row.nodeId = n ∧ row.status = .succeeded

/-- No node of the run has two succeeded rows. -/
def State.SucceededOnce (s : State) (r : RunId) : Prop :=
  ∀ e e' row row', s.runRow r e = some row → s.runRow r e' = some row' → row.nodeId = row'.nodeId →
    row.status = .succeeded → row'.status = .succeeded → e = e'

/-- The rows of the run are the same. -/
def Kept (r : RunId) (s s' : State) : Prop := ∀ e, s'.runRow r e = s.runRow r e

theorem Kept.refl (r : RunId) (s : State) : Kept r s s := fun _ => rfl

variable {r : RunId} {s s' s₀ : State} {n : String} {e : ExecutionId} {jsonb : Json → Json}

theorem Kept.trans {s'' : State} (h : Kept r s s') (h' : Kept r s' s'') : Kept r s s'' :=
  fun e => (h' e).trans (h e)

theorem Kept.of_executions (h : s'.executions = s.executions) (r : RunId) : Kept r s s' := by
  intro e
  unfold State.runRow
  rw [h]

theorem Kept.hasSucceeded (h : Kept r s s') : s'.HasSucceeded r n ↔ s.HasSucceeded r n := by
  unfold State.HasSucceeded
  simp only [h _]

theorem Kept.succeededOnce (h : Kept r s s') : s'.SucceededOnce r ↔ s.SucceededOnce r := by
  unfold State.SucceededOnce
  simp only [h _]

theorem runRow_eq_some {row : FlowNodeExecution} :
    s.runRow r e = some row ↔ s.executions[e]? = some row ∧ row.flowRunId = r := by
  unfold State.runRow
  rw [Option.filter_eq_some_iff]
  simp

/-! ## Row operations -/

/-- The operation leaves the rows of node executions alone. -/
def Op.Quiet : Op → Prop
  | .insertExecution _ _ => False
  | .updateExecution _ _ => False
  | _ => True

theorem executions_of_quiet {o : Op} (ho : o.Quiet) {res : Res o}
    (h : Pool.semOf (handle jsonb) o s res s') : s'.executions = s.executions := by
  obtain ⟨a, h⟩ := h
  cases o with
  | insertExecution r n | updateExecution e v => exact ho.elim
  | selectExecutions q =>
    simp only [handle] at h
    split at h
    · obtain ⟨_, rfl⟩ := answer_inj h
      rfl
    · cases h
  | setEvent svc i =>
    simp only [handle] at h
    split at h <;> (obtain ⟨_, rfl⟩ := answer_inj h; rfl)
  | _ =>
    obtain ⟨_, rfl⟩ := answer_inj h
    rfl

theorem mem_select {q : ExecutionQuery} {rows : List FlowNodeExecution}
    (h : Pool.semOf (handle jsonb) (.selectExecutions q) s rows s') (row : FlowNodeExecution) :
    row ∈ rows ↔ (∃ e, s.runRow q.run e = some row) ∧ q.selects row = true := by
  obtain ⟨a, h⟩ := h
  simp only [handle] at h
  split at h
  · next hmay =>
      obtain ⟨rfl, _⟩ := answer_inj h
      have hrun : q.selects row = true → row.flowRunId = q.run := by
        intro hsel
        simp only [ExecutionQuery.selects, Bool.and_eq_true, beq_iff_eq] at hsel
        exact hsel.1.1
      simp only [State.rowsAt, List.mem_filterMap, hmay.1.mem_iff, State.matching, List.mem_filter,
        List.mem_range, runRow_eq_some]
      constructor
      · rintro ⟨e, ⟨_, hsel⟩, hrow⟩
        rw [hrow] at hsel
        exact ⟨⟨e, hrow, hrun hsel⟩, hsel⟩
      · rintro ⟨⟨e, hrow, _⟩, hsel⟩
        refine ⟨e, ⟨(List.getElem?_eq_some_iff.mp hrow).1, ?_⟩, hrow⟩
        rw [hrow]
        exact hsel
  · cases h

/-- Since `s₀`, the call has inserted row `e` for the node and changed no other row of the run. -/
structure Inserted (r : RunId) (n : String) (e : ExecutionId) (s₀ s : State) : Prop where
  row : ∃ row, s.runRow r e = some row ∧ row.nodeId = n
  fresh : s₀.runRow r e = none
  rest : ∀ e', e' ≠ e → s.runRow r e' = s₀.runRow r e'

theorem Inserted.kept {r : RunId} {n : String} {e : ExecutionId} {s₀ s s' : State}
    (h : Inserted r n e s₀ s) (hk : Kept r s s') : Inserted r n e s₀ s' where
  row := by
    obtain ⟨row, hrow, hn⟩ := h.row
    exact ⟨row, (hk e).trans hrow, hn⟩
  fresh := h.fresh
  rest e' he := (hk e').trans (h.rest e' he)

theorem Inserted.of_kept {s₁ : State}
    (hk : Kept r s₀ s₁) (h : Inserted r n e s₁ s) : Inserted r n e s₀ s where
  row := h.row
  fresh := (hk e).symm.trans h.fresh
  rest e' he := (h.rest e' he).trans (hk e')

theorem Inserted.hasSucceeded {n' : String}
    (h : Inserted r n e s₀ s) (hn : n' ≠ n) (hs : s.HasSucceeded r n') : s₀.HasSucceeded r n' := by
  obtain ⟨e', row, hrow, hnode, hst⟩ := hs
  have hne : e' ≠ e := by
    rintro rfl
    obtain ⟨row', hrow', hn'⟩ := h.row
    rw [hrow] at hrow'
    obtain rfl := Option.some.inj hrow'
    exact hn (hnode.symm.trans hn')
  exact ⟨e', row, (h.rest e' hne) ▸ hrow, hnode, hst⟩

/-- Whatever happens to the inserted row, no node comes to have two succeeded rows, if the node had none. -/
theorem Inserted.succeededOnce (h : Inserted r n e s₀ s) (h' : Inserted r n e s₀ s') (hno : ¬ s₀.HasSucceeded r n)
    (honce : s.SucceededOnce r) : s'.SucceededOnce r := by
  have hnode : ∀ row, s'.runRow r e = some row → row.nodeId = n := by
    intro row hrow
    obtain ⟨row', hrow', hn⟩ := h'.row
    rw [hrow] at hrow'
    exact Option.some.inj hrow' ▸ hn
  have hold : ∀ x row, s'.runRow r x = some row → row.nodeId = n → row.status = .succeeded → x = e := by
    intro x row hrow hn hst
    by_contra hx
    exact hno ⟨x, row, h'.rest x hx ▸ hrow, hn, hst⟩
  intro a b rowa rowb ha hb hab hsta hstb
  by_cases hae : a = e
  · subst hae
    exact (hold b rowb hb (hab ▸ hnode rowa ha) hstb).symm
  · by_cases hbe : b = e
    · subst hbe
      exact hold a rowa ha (hab.trans (hnode rowb hb)) hsta
    · have hsame : ∀ x, x ≠ e → s.runRow r x = s'.runRow r x :=
        fun x hx => (h.rest x hx).trans (h'.rest x hx).symm
      exact honce a b rowa rowb ((hsame a hae).trans ha) ((hsame b hbe).trans hb) hab hsta hstb

theorem runRow_insert {r' : RunId} (e : ExecutionId) :
    State.runRow { s with executions := s.executions ++ [{ flowRunId := r, nodeId := n }] } r' e
      = if e = s.executions.length then
          (if r' = r then some { flowRunId := r, nodeId := n } else none)
        else s.runRow r' e := by
  unfold State.runRow
  by_cases he : e = s.executions.length
  · subst he
    by_cases hr : r' = r
    · subst hr
      simp
    · have hr' : ¬ r = r' := fun h => hr h.symm
      simp [hr, hr']
  · rw [if_neg he]
    rcases Nat.lt_or_ge e s.executions.length with hlt | hge
    · rw [List.getElem?_append_left hlt]
    · have hgt : (s.executions ++ [({ flowRunId := r, nodeId := n } : FlowNodeExecution)]).length ≤ e := by
        rw [List.length_append, List.length_singleton]
        exact Nat.lt_of_le_of_ne hge (fun h => he h.symm)
      rw [List.getElem?_eq_none hgt, List.getElem?_eq_none hge]

theorem succeededOnce_insert (n : String) (r' : RunId) (honce : s.SucceededOnce r') :
    State.SucceededOnce { s with executions := s.executions ++ [{ flowRunId := r, nodeId := n }] } r' := by
  have hsame : ∀ x row, State.runRow { s with executions := s.executions ++ [{ flowRunId := r, nodeId := n }] }
      r' x = some row → row.status = .succeeded → s.runRow r' x = some row := by
    intro x row hx hst
    rw [runRow_insert] at hx
    by_cases hxe : x = s.executions.length
    · rw [if_pos hxe] at hx
      split at hx
      · obtain rfl := Option.some.inj hx
        cases hst
      · cases hx
    · rwa [if_neg hxe] at hx
  intro a b rowa rowb ha hb hab hsta hstb
  exact honce a b rowa rowb (hsame a rowa ha hsta) (hsame b rowb hb hstb) hab hsta hstb

theorem runRow_update {e' : ExecutionId} {v : ExecutionValues} :
    State.runRow { s with executions := update s.executions [e] (v.stmt jsonb) } r e'
      = (s.runRow r e').map (fun row => if e' = e then (v.stmt jsonb).set row else row) := by
  unfold State.runRow
  rw [getElem?_update]
  cases s.executions[e']? with
  | none => rfl
  | some row =>
    by_cases he : e' = e
    · subst he
      have happly : (v.stmt jsonb).apply row = (v.stmt jsonb).set row := Update.apply_of_cond rfl
      have hrun : ((v.stmt jsonb).set row).flowRunId = row.flowRunId := rfl
      by_cases hr : row.flowRunId = r
      · simp [happly, Option.filter, hrun, hr]
      · simp [happly, Option.filter, hrun, hr]
    · by_cases hr : row.flowRunId = r
      · simp [he, Option.filter, hr]
      · simp [he, Option.filter, hr]

theorem Inserted.update (jsonb : Json → Json) {r : RunId} {n : String} {e : ExecutionId} {s₀ s : State}
    (h : Inserted r n e s₀ s) (v : ExecutionValues) :
    Inserted r n e s₀ { s with executions := Table.update s.executions [e] (v.stmt jsonb) } where
  row := by
    obtain ⟨row, hrow, hn⟩ := h.row
    refine ⟨(v.stmt jsonb).set row, ?_, hn⟩
    rw [runRow_update, hrow, Option.map_some, if_pos rfl]
  fresh := h.fresh
  rest e' he := by
    rw [runRow_update, ← h.rest e' he]
    cases s.runRow r e' with
    | none => rfl
    | some row => rw [Option.map_some, if_neg he]

theorem Inserted.kept_update (jsonb : Json → Json) {r' : RunId}
    (h : Inserted r n e s₀ s) (v : ExecutionValues) (hr : r' ≠ r) :
    Kept r' s { s with executions := Table.update s.executions [e] (v.stmt jsonb) } := by
  intro e'
  rw [runRow_update]
  cases hrow' : s.runRow r' e' with
  | none => rfl
  | some row' =>
    have hne : e' ≠ e := by
      rintro rfl
      obtain ⟨row, hrow, _⟩ := h.row
      have hex := (runRow_eq_some.mp hrow).1.symm.trans (runRow_eq_some.mp hrow').1
      obtain rfl := Option.some.inj hex
      exact hr ((runRow_eq_some.mp hrow').2.symm.trans (runRow_eq_some.mp hrow).2)
    rw [Option.map_some, if_neg hne]

/-! ## Rely and guarantee -/

/-- What a call relies on: the others leave the rows of its run. -/
def Rely (c : Call) (s s' : State) : Prop := ¬ c.IsCancel → Kept c.run s s'

/-- What an operation of a call guarantees: it leaves the rows of other runs, no node of its run comes to
have two succeeded rows, and no row is inserted for a node that has a succeeded one. -/
def Guarantee (c : Call) (o : Op) (s : State) (_ : Res o) (s' : State) : Prop :=
  (∀ r, c.IsCancel ∨ r ≠ c.run → Kept r s s') ∧ (s.SucceededOnce c.run → s'.SucceededOnce c.run) ∧
    ∀ r n, o.inserts = some (r, n) → ¬ s.HasSucceeded r n

section RelyGuarantee

variable {jsonb : Json → Json} {c : Call}

theorem rely_refl (c : Call) (s : State) : Rely c s s := fun _ => .refl _ s

theorem rely_trans (c : Call) {s s' s'' : State} (h : Rely c s s') (h' : Rely c s' s'') : Rely c s s'' :=
  fun hc => (h hc).trans (h' hc)

theorem guarantee_of_quiet {o : Op} (ho : o.Quiet) {s s' : State} {res : Res o}
    (h : Pool.semOf (handle jsonb) o s res s') : Guarantee c o s res s' := by
  have hsame := executions_of_quiet ho h
  refine ⟨fun r _ => .of_executions hsame r, fun hs => (Kept.of_executions hsame _).succeededOnce.mpr hs, ?_⟩
  intro r n hins
  cases o with
  | insertExecution r' n' => exact ho.elim
  | _ => cases hins

variable {α : Type} {Q : Except Exn α → State → Prop} {s : State}

/-- The obligation for a program of call `c`. -/
abbrev OkCall (jsonb : Json → Json) (c : Call) (Q : Except Exn α → State → Prop) (p : M α) (s : State) : Prop :=
  Ok (Pool.semOf (handle jsonb)) (Rely c) (Guarantee c) Q p s

theorem ok_quiet (hc : ¬ c.IsCancel) {o : Op} {f : Res o → M α} (ho : o.Quiet)
    (hf : ∀ res s₁ s', Kept c.run s s₁ → Pool.semOf (handle jsonb) o s₁ res s' → Kept c.run s s' →
      OkCall jsonb c Q (f res) s') : OkCall jsonb c Q (ask o >>= f) s := by
  refine Ok.perform_bind fun s₁ hrely res s' hsem => ⟨guarantee_of_quiet ho hsem, ?_⟩
  have hk := Kept.of_executions (executions_of_quiet ho hsem) c.run
  exact hf res s₁ s' (hrely hc) hsem ((hrely hc).trans hk)

theorem ok_of_issues_quiet {p : M α} (hp : p.Issues Op.Quiet) (hQ : ∀ out s, Q out s) :
    OkCall jsonb c Q p s := by
  induction p generalizing s with
  | ret a | raise e => exact fun s₁ _ => hQ _ s₁
  | op o k ih => exact fun s₁ _ res s' hsem => ⟨guarantee_of_quiet hp.1 hsem, ih res (hp.2 res)⟩

theorem ok_updateExecution_once (hc : ¬ c.IsCancel) {n : String} {e : ExecutionId} {s₀ : State}
    (hno : ¬ s₀.HasSucceeded c.run n) (hins : Inserted c.run n e s₀ s) {values : ExecutionValues}
    {f : Unit → M α} (hf : ∀ s', Inserted c.run n e s₀ s' → OkCall jsonb c Q (f ()) s')
    (herr : ∀ x s', Inserted c.run n e s₀ s' → Q (.error x) s') :
    OkCall jsonb c Q (updateExecution e values >>= f) s := by
  refine Ok.perform_bind fun s₁ hrely res s' hsem => ?_
  have hins₁ : Inserted c.run n e s₀ s₁ := hins.kept (hrely hc)
  have hnone : ∀ r n, (Op.updateExecution e values).inserts = some (r, n) → ¬ s₁.HasSucceeded r n := by
    intro r n h
    cases h
  obtain ⟨a, hsem⟩ := hsem
  simp only [handle] at hsem
  split at hsem
  · obtain ⟨rfl, rfl⟩ := answer_inj hsem
    have hins' := hins₁.update jsonb values
    refine ⟨⟨?_, hins₁.succeededOnce hins' hno, hnone⟩, hf _ hins'⟩
    intro r hr
    exact hins₁.kept_update jsonb values (hr.resolve_left hc)
  · obtain ⟨rfl, rfl⟩ := answer_inj hsem
    refine ⟨⟨fun r _ => .refl r _, fun h => h, hnone⟩, ?_⟩
    exact fun s₂ hrely' => herr _ s₂ (hins₁.kept (hrely' hc))

theorem ok_insert (hc : ¬ c.IsCancel) {n : String} (hno : ¬ s.HasSucceeded c.run n) {f : ExecutionId → M α}
    (hf : ∀ e s', Inserted c.run n e s s' → OkCall jsonb c Q (f e) s') :
    OkCall jsonb c Q (ask (.insertExecution c.run n) >>= f) s := by
  refine Ok.perform_bind fun s₁ hrely res s' hsem => ?_
  have hk : Kept c.run s s₁ := hrely hc
  obtain ⟨a, hsem⟩ := hsem
  obtain ⟨rfl, rfl⟩ := answer_inj hsem
  have hnone : ∀ r, s₁.runRow r s₁.executions.length = none := by
    intro r
    unfold State.runRow
    rw [List.getElem?_eq_none (Nat.le_refl _)]
    rfl
  refine ⟨⟨?_, ?_, ?_⟩, hf _ _ (.of_kept hk ⟨?_, hnone _, ?_⟩)⟩
  · intro r hr e
    have hr' : r ≠ c.run := hr.resolve_left hc
    rw [runRow_insert]
    by_cases he : e = s₁.executions.length
    · rw [if_pos he, if_neg hr', he, hnone]
    · rw [if_neg he]
  · exact succeededOnce_insert n c.run
  · intro r n' hins
    obtain ⟨rfl, rfl⟩ := answer_inj hins
    rwa [hk.hasSucceeded]
  · exact ⟨_, by rw [runRow_insert, if_pos rfl, if_pos rfl], rfl⟩
  · intro e he
    rw [runRow_insert, if_neg he]

/-! ## Calls -/

/-- **One node.** Running a node that has not succeeded meets the guarantee, and adds one row. -/
theorem ok_executeSingleNode_once (hc : ¬ c.IsCancel) {node : FlowNode} {inputs : JsonDict}
    (hno : ¬ s.HasSucceeded c.run node.nodeId) :
    OkCall jsonb c (fun _ s' => ∃ e, Inserted c.run node.nodeId e s s')
      (executeSingleNode c.run node inputs) s := by
  refine ok_quiet hc trivial fun nowStart _ s₁ _ _ hk₁ => ?_
  have hno₁ : ¬ s₁.HasSucceeded c.run node.nodeId := fun h => hno (hk₁.hasSucceeded.mp h)
  refine ok_insert hc hno₁ fun e s₂ hins₂ => ?_
  have herr : ∀ {s'}, Inserted c.run node.nodeId e s₁ s' → ∃ e, Inserted c.run node.nodeId e s s' :=
    fun h => ⟨e, .of_kept hk₁ h⟩
  refine ok_updateExecution_once hc hno₁ hins₂ (fun s₃ hins₃ => ?_) (fun _ _ h => herr h)
  refine Ok.rescue (rely_refl c) (P := fun _ s' => Inserted c.run node.nodeId e s₁ s') ?_ ?_
    (fun _ _ h => herr h)
  · have hraise : ∀ {s'}, Inserted c.run node.nodeId e s₁ s' →
        ∀ s₂, Rely c s' s₂ → Inserted c.run node.nodeId e s₁ s₂ := fun h _ hrely => h.kept (hrely hc)
    refine ok_quiet hc trivial fun found _ s₄ _ _ hk₄ => ?_
    have hins₄ := hins₃.kept hk₄
    refine Ok.lift_bind (fun manifest _ => ?_) (fun _ _ => hraise hins₄)
    refine Ok.lift_bind (fun params _ => ?_) (fun _ _ => hraise hins₄)
    refine ok_quiet hc trivial fun ran _ s₅ _ _ hk₅ => ?_
    have hins₅ := hins₄.kept hk₅
    refine Ok.lift_bind (fun result _ => ?_) (fun _ _ => hraise hins₅)
    refine ok_quiet hc trivial fun nowEnd _ s₆ _ _ hk₆ => ?_
    refine ok_updateExecution_once hc hno₁ (hins₅.kept hk₆) (fun s₇ hins₇ => ?_) (fun _ _ h => h)
    exact hraise hins₇
  · intro x s₄ hins₄
    refine ok_quiet hc trivial fun _ _ s₅ _ _ hk₅ => ?_
    refine ok_updateExecution_once hc hno₁ (hins₄.kept hk₅) (fun s₆ hins₆ => ?_) (fun _ _ h => herr h)
    exact fun s₇ hrely => herr (hins₆.kept (hrely hc))

theorem issues_finish_quiet (run : RunId) (jobId : Option Jobs.JobId) (digest : String) (status : RunStatus)
    (summaries : List NodeSummary) : (finish run jobId digest status summaries).Issues Op.Quiet :=
  issues_finish_of trivial trivial (fun _ => trivial) (fun _ _ => trivial) jobId digest status summaries

/-- **The loop.** It meets the guarantee if the nodes it does not skip are distinct and have not succeeded. -/
theorem ok_runNodeLoop_once (hc : ¬ c.IsCancel) {ctx : LoopContext} (hrun : ctx.run = c.run)
    {nodes : List FlowNode} (hmap : ctx.nodeMap = nodeMapOf nodes) {rest : List String} (hnd : rest.Nodup)
    (outputs : Dict String JsonDict) (summaries : Dict String NodeSummary)
    (hno : ∀ id ∈ rest, id ∉ ctx.succeededNodes → ¬ s.HasSucceeded c.run id) :
    OkCall jsonb c (fun _ _ => True) (runNodeLoop ctx rest outputs summaries) s := by
  induction rest generalizing outputs summaries s with
  | nil => exact ok_of_issues_quiet (issues_finish_quiet _ _ _ _ _) (fun _ _ => trivial)
  | cons id rest ih =>
    rw [List.nodup_cons] at hnd
    refine ok_quiet hc trivial fun cancelled _ s₁ _ _ hk₁ => ?_
    have hno₁ : ∀ x ∈ id :: rest, x ∉ ctx.succeededNodes → ¬ s₁.HasSucceeded c.run x :=
      fun x hx hxs h => hno x hx hxs (hk₁.hasSucceeded.mp h)
    split
    · exact ok_of_issues_quiet (issues_finish_quiet _ _ _ _ _) (fun _ _ => trivial)
    · split
      · exact ih hnd.2 _ _ (fun x hx => hno₁ x (List.mem_cons_of_mem _ hx))
      · next hskip =>
          cases hnode : ctx.nodeMap.get? id with
          | none => exact fun _ _ => trivial
          | some node =>
            have hid : node.nodeId = id := (nodeMapOf_get? (hmap ▸ hnode)).2
            have hone : ¬ s₁.HasSucceeded c.run node.nodeId :=
              hid ▸ hno₁ id List.mem_cons_self hskip
            rw [hrun]
            refine Ok.bind (rely_refl c) (ok_executeSingleNode_once hc hone) ?_ (fun _ _ _ => trivial)
            rintro result s₂ ⟨e, hins⟩
            dsimp only
            split
            · exact ok_of_issues_quiet (issues_finish_quiet _ _ _ _ _) (fun _ _ => trivial)
            · refine ih hnd.2 _ _ (fun x hx hxs h => ?_)
              have hne : x ≠ node.nodeId := fun he => hnd.1 (hid ▸ he ▸ hx)
              exact hno₁ x (List.mem_cons_of_mem _ hx) hxs (hins.hasSucceeded hne h)

theorem ok_loadRun_once (hc : ¬ c.IsCancel) :
    OkCall jsonb c (fun _ s' => Kept c.run s s') (loadRun c.run) s := by
  refine ok_quiet hc trivial fun found _ s₁ _ _ hk₁ => ?_
  have hend : ∀ s₂, Rely c s₁ s₂ → Kept c.run s s₂ := fun s₂ hrely => hk₁.trans (hrely hc)
  cases found with
  | none => exact hend
  | some r =>
    refine ok_quiet hc trivial fun version _ s₂ _ _ hk₂ => ?_
    have hend₂ : ∀ s₃, Rely c s₂ s₃ → Kept c.run s s₃ :=
      fun s₃ hrely => (hk₁.trans hk₂).trans (hrely hc)
    cases version with
    | none => exact hend₂
    | some v => exact hend₂

/-- **`resume`** meets the guarantee in every state: it skips the nodes that have succeeded. -/
theorem ok_resume_once (hc : ¬ c.IsCancel) (svc : ServiceId) :
    OkCall jsonb c (fun _ _ => True) (resume svc c.run) s := by
  refine Ok.bind (rely_refl c) (ok_loadRun_once hc) ?_ (fun _ _ _ => trivial)
  rintro ⟨r, version⟩ s₁ _
  refine ok_quiet hc trivial fun existing s₂ s₃ _ hsem _ => ?_
  have hk₃ : Kept c.run s₂ s₃ := .of_executions (executions_of_quiet (o := .selectExecutions _) trivial hsem) _
  refine ok_quiet hc trivial fun now _ s₄ _ _ hk₄ => ?_
  refine ok_quiet hc trivial fun _ _ s₅ _ _ hk₅ => ?_
  refine Ok.lift_bind (fun order hsort => ?_) (fun _ _ _ _ => trivial)
  refine ok_quiet hc trivial fun cancelEvent _ s₆ _ _ hk₆ => ?_
  refine ok_runNodeLoop_once hc rfl rfl (topologicalSort_nodup hsort) _ _ (fun id _ hskip h => hskip ?_)
  obtain ⟨e, row, hrow, hn, hst⟩ := (((hk₃.trans hk₄).trans hk₅).trans hk₆).hasSucceeded.mp h
  have hsel : ExecutionQuery.selects { run := c.run, byStartedAt := true } row = true := by
    simpa [ExecutionQuery.selects] using (runRow_eq_some.mp hrow).2
  have hmem : row ∈ existing := (mem_select hsem row).mpr ⟨⟨e, hrow⟩, hsel⟩
  exact List.mem_map.mpr ⟨row, List.mem_filter.mpr ⟨hmem, decide_eq_true hst⟩, hn⟩

/-- **`execute`** meets the guarantee on a run without succeeded rows. -/
theorem ok_execute_once (hc : ¬ c.IsCancel) (svc : ServiceId) (hno : ∀ n, ¬ s.HasSucceeded c.run n) :
    OkCall jsonb c (fun _ _ => True) (execute svc c.run) s := by
  refine Ok.bind (rely_refl c) (ok_loadRun_once hc) ?_ (fun _ _ _ => trivial)
  rintro ⟨r, version⟩ s₁ hk₁
  refine ok_quiet hc trivial fun now _ s₂ _ _ hk₂ => ?_
  refine ok_quiet hc trivial fun _ _ s₃ _ _ hk₃ => ?_
  refine ok_quiet hc trivial fun cancelEvent _ s₄ _ _ hk₄ => ?_
  refine Ok.lift_bind (fun order hsort => ?_) (fun _ _ _ _ => trivial)
  refine ok_runNodeLoop_once hc rfl rfl (topologicalSort_nodup hsort) _ _ (fun id _ _ h => hno id ?_)
  exact (((hk₁.trans hk₂).trans hk₃).trans hk₄).hasSucceeded.mp h

/-- The checks of `retry_node` let a node pass that has not succeeded, if no node has both a succeeded and a
failed row. -/
theorem ok_checkRetry_once (hc : ¬ c.IsCancel) {nodes : List FlowNode} {n : String}
    (hrows : s.HasSucceeded c.run n →
      ∀ e row, s.runRow c.run e = some row → row.nodeId = n → row.status ≠ .failed) :
    OkCall jsonb c (fun out s' => ∀ node, out = .ok node →
      node.nodeId = n ∧ ¬ s'.HasSucceeded c.run n) (checkRetry c.run (nodeMapOf nodes) n) s := by
  unfold checkRetry
  cases hnode : (nodeMapOf nodes).get? n with
  | none => exact fun _ _ _ h => nomatch h
  | some node =>
    refine ok_quiet hc trivial fun rows s₁ s₂ hk₁ hsem hk₂ => ?_
    -- the rows found are the rows of the node
    have hmem : ∀ row, row ∈ rows ↔ (∃ e, s.runRow c.run e = some row) ∧ row.nodeId = n := by
      intro row
      rw [mem_select hsem row]
      simp only [hk₁ _, ExecutionQuery.selects, Bool.and_true, Bool.and_eq_true, beq_iff_eq]
      constructor
      · rintro ⟨hrow, _, hn⟩
        exact ⟨hrow, hn⟩
      · rintro ⟨⟨e, hrow⟩, hn⟩
        exact ⟨⟨e, hrow⟩, (runRow_eq_some.mp hrow).2, hn⟩
    have hpass : ¬ s.HasSucceeded c.run n →
        ∀ s₃, Rely c s₂ s₃ → ∀ node', Except.ok (ε := Exn) node = .ok node' →
          node'.nodeId = n ∧ ¬ s₃.HasSucceeded c.run n := by
      intro hno s₃ hrely node' hnode'
      obtain rfl := Except.ok.inj hnode'
      exact ⟨(nodeMapOf_get? hnode).2, fun h => hno ((hk₂.trans (hrely hc)).hasSucceeded.mp h)⟩
    cases hhead : rows.head? with
    | none =>
      refine hpass ?_
      rintro ⟨e, row, hrow, hn, _⟩
      have hin := (hmem row).mpr ⟨⟨e, hrow⟩, hn⟩
      rw [List.head?_eq_none_iff.mp hhead] at hin
      exact absurd hin List.not_mem_nil
    | some existing =>
      obtain ⟨⟨e, hrow⟩, hn⟩ := (hmem existing).mp (List.mem_of_head? hhead)
      dsimp only
      split
      · exact fun _ _ _ h => nomatch h
      · next hst => exact hpass fun hs => hrows hs e existing hrow hn (not_not.mp hst)

/-- **`retry_node`** meets the guarantee if its node does not have both a succeeded and a failed row. -/
theorem ok_retryNode_once (hc : ¬ c.IsCancel) (svc : ServiceId) {n : String}
    (hrows : s.HasSucceeded c.run n →
      ∀ e row, s.runRow c.run e = some row → row.nodeId = n → row.status ≠ .failed) :
    OkCall jsonb c (fun _ _ => True) (retryNode svc c.run n) s := by
  refine Ok.bind (rely_refl c) (ok_loadRun_once hc) ?_ (fun _ _ _ => trivial)
  rintro ⟨r, version⟩ s₁ hk₁
  have hrows₁ : s₁.HasSucceeded c.run n →
      ∀ e row, s₁.runRow c.run e = some row → row.nodeId = n → row.status ≠ .failed :=
    fun hs e row hrow => hrows (hk₁.hasSucceeded.mp hs) e row ((hk₁ e) ▸ hrow)
  refine Ok.bind (rely_refl c) (ok_checkRetry_once hc hrows₁) ?_ (fun _ _ _ => trivial)
  rintro node s₂ hpass
  obtain ⟨rfl, hno⟩ := hpass node rfl
  refine ok_quiet hc trivial fun _ _ s₃ _ _ hk₃ => ?_
  refine ok_quiet hc trivial fun done _ s₄ _ _ hk₄ => ?_
  refine ok_quiet hc trivial fun cancelEvent _ s₅ _ _ hk₅ => ?_
  have hno₅ : ¬ s₅.HasSucceeded c.run node.nodeId :=
    fun h => hno (((hk₃.trans hk₄).trans hk₅).hasSucceeded.mp h)
  refine Ok.bind (rely_refl c) (ok_executeSingleNode_once hc hno₅) ?_ (fun _ _ _ => trivial)
  rintro result s₆ _
  have hafter : OkCall jsonb c (fun _ _ => True)
      (afterRetry svc c.run (nodeMapOf version.nodes) r.jobId version.digest result.status) s₆ := by
    unfold afterRetry
    split
    · refine ok_quiet hc trivial fun done _ s₇ _ _ _ => ?_
      split
      · exact ok_quiet hc trivial fun all _ s₈ _ _ _ =>
          ok_of_issues_quiet (issues_finish_quiet _ _ _ _ _) (fun _ _ => trivial)
      · exact ok_resume_once hc svc
    · exact ok_of_issues_quiet (issues_finish_quiet _ _ _ _ _) (fun _ _ => trivial)
  refine Ok.bind (rely_refl c) hafter ?_ (fun _ _ _ => trivial)
  rintro _ s₇ _
  refine ok_quiet hc trivial fun rows _ s₈ _ _ _ => ?_
  split <;> exact fun _ _ => trivial

/-- **`cancel`** touches no rows. -/
theorem ok_cancel_once (svc : ServiceId) (run : RunId) :
    OkCall jsonb (.cancel svc run) (fun _ _ => True) (Call.prog (.cancel svc run)) s := by
  refine ok_of_issues_quiet ?_ (fun _ _ => trivial)
  refine .bind (.bind (.perform trivial) fun _ => .bind (.perform trivial) fun found => ?_) fun _ => trivial
  cases found with
  | none => trivial
  | some r =>
    dsimp only
    split
    · exact .bind (.perform trivial) fun _ => .bind (.perform trivial) fun _ => trivial
    · trivial

end RelyGuarantee

/-! ## Runs -/

/-- How many succeeded rows the node has. -/
def State.succeededCount (s : State) (r : RunId) (n : String) : Nat :=
  s.executions.countP (fun row => row.flowRunId = r ∧ row.nodeId = n ∧ row.status = .succeeded)

theorem succeededCount_eq_zero (h : ¬ s.HasSucceeded r n) : s.succeededCount r n = 0 := by
  unfold State.succeededCount
  rw [List.countP_eq_zero]
  intro row hrow hsel
  obtain ⟨hr, hn, hst⟩ := of_decide_eq_true hsel
  obtain ⟨e, he⟩ := List.getElem?_of_mem hrow
  exact h ⟨e, row, runRow_eq_some.mpr ⟨he, hr⟩, hn, hst⟩

theorem countP_le_one {α : Type} {q : α → Bool} {l : List α}
    (h : ∀ (i j : Nat) a b, l[i]? = some a → l[j]? = some b → q a = true → q b = true → i = j) :
    l.countP q ≤ 1 := by
  induction l with
  | nil => exact Nat.zero_le 1
  | cons x xs ih =>
    have htail : xs.countP q ≤ 1 := by
      refine ih fun i j a b ha hb hqa hqb => ?_
      have hij := h (i + 1) (j + 1) a b (by simpa using ha) (by simpa using hb) hqa hqb
      omega
    rw [List.countP_cons]
    by_cases hx : q x = true
    · have hzero : xs.countP q = 0 := by
        rw [List.countP_eq_zero]
        intro a ha hqa
        obtain ⟨j, hj⟩ := List.getElem?_of_mem ha
        have hij := h 0 (j + 1) x a (by simp) (by simpa using hj) hx hqa
        omega
      simp [hx, hzero]
    · simpa [hx] using htail

theorem succeededCount_le_one (h : s.SucceededOnce r) (n : String) : s.succeededCount r n ≤ 1 := by
  refine countP_le_one fun i j a b ha hb hqa hqb => ?_
  obtain ⟨hra, hna, hsta⟩ := of_decide_eq_true hqa
  obtain ⟨hrb, hnb, hstb⟩ := of_decide_eq_true hqb
  exact h i j a b (runRow_eq_some.mpr ⟨ha, hra⟩) (runRow_eq_some.mpr ⟨hb, hrb⟩) (hna.trans hnb.symm) hsta hstb

/-- A call of `execute`, `resume` or `retry_node` on the run is in progress. -/
def Busy (p : System) (r : RunId) : Prop :=
  ∃ t ∈ p.threads, ∃ q ∈ t.rest, ¬ q.Ended ∧ ¬ t.call.IsCancel ∧ t.call.run = r

/-- The call may start: no other call that executes the run is in progress; `execute` finds no succeeded row
of the run, and `retry_node` not both a succeeded and a failed row of its node. -/
def SafeStart (p : System) : Call → Prop
  | .cancel _ _ => True
  | .resume _ run => ¬ Busy p run
  | .execute _ run =>
    ¬ Busy p run ∧ ∀ row ∈ p.state.executions, row.flowRunId = run → row.status ≠ .succeeded
  | .retryNode _ run n =>
    ¬ Busy p run ∧
      ((∃ row ∈ p.state.executions, row.flowRunId = run ∧ row.nodeId = n ∧ row.status = .succeeded) →
        ∀ row ∈ p.state.executions, row.flowRunId = run → row.nodeId = n → row.status ≠ .failed)

/-- The step does not start a call that may not start. -/
def SafeAct (p : System) : Action → Prop
  | .call c => SafeStart p c
  | _ => True

/-- In every state no node has two succeeded rows, and no step inserts a row for a node that has one. -/
def SucceedOnce (ts : List (Transition System Action)) : Prop :=
  ∀ t ∈ ts, (∀ r n, t.post.state.succeededCount r n ≤ 1) ∧
    ∀ i a r n, t.act = .step i a → (t.pre.next? i).bind Op.inserts = some (r, n) →
      t.pre.state.succeededCount r n = 0

section Runs

variable {jsonb : Json → Json} {p p' : System}

theorem mem_of_runRow {s : State} {r : RunId} {e : ExecutionId} {row : FlowNodeExecution}
    (h : s.runRow r e = some row) : row ∈ s.executions ∧ row.flowRunId = r :=
  ⟨List.mem_of_getElem? (runRow_eq_some.mp h).1, (runRow_eq_some.mp h).2⟩

/-- **A call that may start meets its guarantee.** -/
theorem ok_prog_once {c : Call} (h : SafeStart p c) :
    OkCall jsonb c (fun _ _ => True) c.prog p.state := by
  have hdone : ∀ (a : Unit) (s : State), True → OkCall jsonb c (fun _ _ => True) (.ret Reply.none) s :=
    fun _ _ _ _ _ => trivial
  cases c with
  | cancel svc run => exact ok_cancel_once svc run
  | resume svc run =>
    exact Ok.bind (rely_refl _) (ok_resume_once (c := .resume svc run) (fun h => h) svc) hdone
      (fun _ _ _ => trivial)
  | execute svc run =>
    refine Ok.bind (rely_refl _) (ok_execute_once (c := .execute svc run) (fun h => h) svc ?_) hdone
      (fun _ _ _ => trivial)
    rintro n ⟨e, row, hrow, _, hst⟩
    obtain ⟨hmem, hr⟩ := mem_of_runRow hrow
    exact h.2 row hmem hr hst
  | retryNode svc run n =>
    refine Ok.bind (rely_refl _) (ok_retryNode_once (c := .retryNode svc run n) (fun h => h) svc ?_)
      (fun _ _ _ _ _ => trivial) (fun _ _ _ => trivial)
    rintro ⟨e₀, row₀, hrow₀, hn₀, hst₀⟩ e row hrow hn
    obtain ⟨hmem₀, hr₀⟩ := mem_of_runRow hrow₀
    obtain ⟨hmem, hr⟩ := mem_of_runRow hrow
    exact h.2 ⟨row₀, hmem₀, hr₀, hn₀, hst₀⟩ row hmem hr hn

/-- The invariant of the runs in which only calls start that may. -/
structure OnceInv (jsonb : Json → Json) (p : System) : Prop where
  ok : Pool.AllOk (handle jsonb) Rely Guarantee (fun _ _ _ => True) p
  exclusive : ∀ i j c d, i ≠ j → p.Active i c → p.Active j d → ¬ c.IsCancel → ¬ d.IsCancel → c.run ≠ d.run
  once : ∀ r, p.state.SucceededOnce r

/-- Calls on different runs do not disturb each other, and `cancel` disturbs nobody. -/
theorem OnceInv.compatible (h : OnceInv jsonb p) : Pool.Compatible Rely Guarantee p := by
  intro i j c d hij hi hj o s r s' hG hd
  refine hG.1 d.run ?_
  by_cases hc : c.IsCancel
  · exact .inl hc
  · exact .inr (fun hrun => h.exclusive i j c d hij hi hj hc hd hrun.symm)

theorem active_step {act : Action} (h : step jsonb p act = some p') {i : Nat} {c : Call}
    (hi : p'.Active i c) : p.Active i c ∨ (p.threads.length = i ∧ act = .call c) := by
  obtain ⟨o, k, hi⟩ := hi
  rcases Pool.thread_step h i with ⟨d, o', k', r, hop, _, hi'⟩ | ⟨_, hsame | ⟨hlen, d, hact, hi'⟩ | ⟨t, _, hi'⟩⟩
  · rw [hi] at hi'
    obtain ⟨rfl, _⟩ := Thread.mk.inj (Option.some.inj hi')
    exact .inl ⟨o', k', hop⟩
  · exact .inl ⟨o, k, hsame.symm.trans hi⟩
  · rw [hi] at hi'
    obtain ⟨rfl, _⟩ := Thread.mk.inj (Option.some.inj hi')
    exact .inr ⟨hlen, hact⟩
  · rw [hi] at hi'
    cases (Thread.mk.inj (Option.some.inj hi')).2

theorem busy_of_active {i : Nat} {c : Call} (hi : p.Active i c) (hc : ¬ c.IsCancel) : Busy p c.run := by
  obtain ⟨o, k, hi⟩ := hi
  exact ⟨_, List.mem_of_getElem? hi, _, rfl, fun h => h, hc, rfl⟩

theorem not_busy_of_safeStart {c : Call} (h : SafeStart p c) (hc : ¬ c.IsCancel) : ¬ Busy p c.run := by
  cases c with
  | cancel svc run => exact absurd trivial hc
  | resume svc run => exact h
  | execute svc run => exact h.1
  | retryNode svc run n => exact h.1

/-- **A safe step keeps the invariant**, and inserts no row for a node that has a succeeded one. -/
theorem OnceInv.step (h : OnceInv jsonb p) {act : Action} (hsafe : SafeAct p act)
    (hstep : step jsonb p act = some p') :
    OnceInv jsonb p' ∧ ∀ i a r n, act = .step i a → (p.next? i).bind Op.inserts = some (r, n) →
      ¬ p.state.HasSucceeded r n := by
  have hexcl : ∀ i j c d, i ≠ j → p'.Active i c → p'.Active j d → ¬ c.IsCancel → ¬ d.IsCancel →
      c.run ≠ d.run := by
    intro i j c d hij hi hj hc hd hrun
    rcases active_step hstep hi with hi | ⟨hi, hact⟩
    · rcases active_step hstep hj with hj | ⟨hj, hact⟩
      · exact h.exclusive i j c d hij hi hj hc hd hrun
      · subst hact
        exact not_busy_of_safeStart hsafe hd (hrun ▸ busy_of_active hi hc)
    · rcases active_step hstep hj with hj | ⟨hj, _⟩
      · subst hact
        exact not_busy_of_safeStart hsafe hc (hrun ▸ busy_of_active hj hd)
      · exact hij (hi.symm.trans hj)
  cases act with
  | call c =>
    have hstate := Pool.state_of_call hstep
    exact ⟨⟨h.ok.call (ok_prog_once hsafe) hstep, hexcl, hstate ▸ h.once⟩, fun _ _ _ _ hact => nomatch hact⟩
  | kill i =>
    have hstate := Pool.state_of_kill hstep
    exact ⟨⟨h.ok.kill hstep, hexcl, hstate ▸ h.once⟩, fun _ _ _ _ hact => nomatch hact⟩
  | step i a =>
    obtain ⟨hok, c, o, k, r, hi, hG, _, _⟩ :=
      h.ok.sound rely_refl (fun c _ _ _ => rely_trans c) h.compatible hstep
    refine ⟨⟨hok, hexcl, fun r' => ?_⟩, ?_⟩
    · by_cases hr : r' = c.run
      · exact hr ▸ hG.2.1 (h.once c.run)
      · exact (hG.1 r' (.inr hr)).succeededOnce.mpr (h.once r')
    · intro i' a' r' n hact hins
      obtain ⟨rfl, _⟩ := Pool.Action.step.inj hact
      have hnext : p.next? i = some o := by
        unfold Pool.next?
        rw [hi]
      rw [hnext] at hins
      exact hG.2.2 r' n hins

/-- **Nodes succeed once in the runs whose calls find what they need.** Take any run of the system from a
state without execution rows in which, whenever a call starts, no other call that executes its run is
in progress, `execute` finds no succeeded row of the run, and `retry_node` does not find both a succeeded
and a failed row of its node. Then no node ever has two succeeded rows, and no row is ever inserted for a
node that has one. -/
theorem nodes_succeed_once (jsonb : Json → Json) (s : State) (acts : List Action)
    (hsafe : ∀ t ∈ play (step jsonb) (start { s with executions := [] }) acts, SafeAct t.pre t.act) :
    SucceedOnce (play (step jsonb) (start { s with executions := [] }) acts) := by
  have hrun : Run (step jsonb) (start { s with executions := [] }) _ _ := play_run _ acts
  have hinit : OnceInv jsonb (start { s with executions := [] }) := by
    refine ⟨(fun i c o k hi => nomatch hi), ?_, ?_⟩
    · rintro i j c d _ ⟨o, k, hi⟩
      cases hi
    · intro r e e' row row' he
      cases (runRow_eq_some.mp he).1
  have hinv := hrun.invariant hinit (fun t ht hI => (hI.step (hsafe t ht) (hrun.step_of_mem ht)).1)
  intro t ht
  obtain ⟨hpre, hpost⟩ := hinv t ht
  refine ⟨fun r n => succeededCount_le_one (hpost.once r) n, ?_⟩
  intro i a r n hact hins
  exact succeededCount_eq_zero ((hpre.step (hsafe t ht) (hrun.step_of_mem ht)).2 i a r n hact hins)

end Runs

instance : DecidablePred Call.IsCancel
  | .cancel _ _ => .isTrue trivial
  | .execute _ _ => .isFalse id
  | .resume _ _ => .isFalse id
  | .retryNode _ _ _ => .isFalse id

instance (p : System) (r : RunId) : Decidable (Busy p r) := inferInstanceAs (Decidable (∃ t ∈ _, _))

instance (p : System) : DecidablePred (SafeStart p)
  | .cancel _ _ => .isTrue trivial
  | .resume _ run => inferInstanceAs (Decidable (¬ Busy p run))
  | .execute _ _ => inferInstanceAs (Decidable (_ ∧ _))
  | .retryNode _ _ _ => inferInstanceAs (Decidable (_ ∧ _))

instance (p : System) : DecidablePred (SafeAct p)
  | .call c => inferInstanceAs (Decidable (SafeStart p c))
  | .step _ _ => .isTrue trivial
  | .kill _ => .isTrue trivial

/-- The only node fails in `execute` and succeeds in `resume`. -/
def failThenResume : List Action :=
  .call (.execute 0 0) :: go 0 15 fails ++ .call (.resume 0 0) :: go 1 17 { succeeds with rows := [0] }

theorem nodes_succeed_once_resume :
    SucceedOnce (play (step id) (start { freshState loadVersion with executions := [] }) failThenResume) :=
  nodes_succeed_once id (freshState loadVersion) failThenResume (by decide +kernel)

/-- The job is delivered twice: the second `execute` finds the node succeeded. -/
def executeTwice : List Action :=
  .call (.execute 0 0) :: go 0 16 succeeds ++ .call (.execute 1 0) :: go 1 16 succeeds

/-- A node does not succeed once in general. -/
theorem node_succeeds_twice :
    ¬ ∀ (jsonb : Json → Json) (s : State) (acts : List Action),
      SucceedOnce (play (step jsonb) (start { s with executions := [] }) acts) := by
  intro h
  have htwice : ∃ t ∈ play (step id) (start { freshState loadVersion with executions := [] }) executeTwice,
      ¬ t.post.state.succeededCount 0 "load" ≤ 1 := by decide +kernel
  obtain ⟨t, ht, hcount⟩ := htwice
  exact hcount ((h id (freshState loadVersion) executeTwice t ht).1 0 "load")

end Irip.Flow
