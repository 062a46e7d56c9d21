import Irip.Flow.System

/-!
# `Flow.Cancel` — when a cancelled run stays cancelled

`cancel` commits the status `cancelled`; `execute`, `resume` and `retry_node` write `running` at their start
and a final status at their end, without looking at the status they overwrite.
-/

namespace Irip.Flow

open Runs (Run Frozen play play_run)

/-! ## Overwriting -/

/-- The status of the run is `cancelled`. -/
def Cancelled (r : RunId) (p : System) : Prop := p.state.runStatus? r = some .cancelled

instance (r : RunId) : DecidablePred (Cancelled r) := fun p =>
  inferInstanceAs (Decidable (p.state.runStatus? r = some .cancelled))

/-- The step is a call of `execute`, `resume` or `retry_node` on the run performing its write of `running`,
having read another status, or its final write of `succeeded` or `failed`. -/
def Overwrites (r : RunId) (p : System) (act : Action) : Prop :=
  ∃ (i : Nat) (a : Answer) (c : Call) (v : RunValues) (st : RunStatus) (k : Unit → M Reply),
    act = .step i a ∧ p.threads[i]? = some ⟨c, some (.op (.updateRun r v) k)⟩ ∧
      ¬ c.IsCancel ∧ c.run = r ∧ v.status = some st ∧ st ≠ .cancelled

theorem not_cancelled_of_overwrites {jsonb : Json → Json} {r : RunId} {p p' : System} {act : Action}
    (h : step jsonb p act = some p') (ho : Overwrites r p act) : ¬ Cancelled r p' := by
  obtain ⟨i, a, c, v, st, k, rfl, hi, _, _, hv, hne⟩ := ho
  obtain ⟨c', o', k', res, hi', hhandle, _⟩ := Pool.step_step h
  rw [hi] at hi'
  obtain ⟨rfl, hop⟩ := Thread.mk.inj (Option.some.inj hi')
  obtain ⟨rfl, _⟩ := Prog.op.inj (Option.some.inj hop)
  have hruns : p'.state.runs = Table.update p.state.runs [r] v.stmt := by
    obtain ⟨_, hs⟩ := answer_inj hhandle
    rw [← hs]
  have hst := runStatus?_update hruns r
  intro hc
  unfold Cancelled at hc
  rw [hst, hv] at hc
  cases hrow : p.state.runStatus? r with
  | none => simp [hrow] at hc
  | some st' =>
    rw [hrow] at hc
    simp only [Option.map_some, if_true, Option.getD_some, Option.some.injEq] at hc
    exact hne hc

theorem cancelled_of_not_overwrites {jsonb : Json → Json} {r : RunId} {p p' : System} {act : Action}
    (h : step jsonb p act = some p') (hp : ∀ t ∈ p.threads, ∀ q ∈ t.rest, q.Issues t.call.MayIssue)
    (hc : Cancelled r p) (ho : ¬ Overwrites r p act) : Cancelled r p' := by
  rcases runStatus?_step h r with hsame | ⟨i, a, v, st, rfl, hnext, hv, hst⟩
  · exact hsame.trans hc
  · by_cases hst' : st = .cancelled
    · unfold Cancelled
      rw [hst, hc, hst']
      rfl
    · -- only an overwriting call sets another status: what `cancel` issues is known
      obtain ⟨c, o, k, res, hi, _, _⟩ := Pool.step_step h
      have hop : o = .updateRun r v := by
        unfold Pool.next? at hnext
        rw [hi] at hnext
        exact Option.some.inj hnext
      subst hop
      have hmay := (hp _ (List.mem_of_getElem? hi) _ rfl).1
      refine absurd ⟨i, a, c, v, st, k, rfl, hi, ?_, hmay.1.symm, hv, hst'⟩ ho
      intro hcancel
      have hv' := hmay.2 hcancel
      rw [hv] at hv'
      exact hst' (Option.some.inj hv')

/-! ## Runs -/

/-- **A cancelled run stays cancelled exactly in the runs in which no other call overwrites it.** For any
interleaving of the calls of any number of service instances, the status `cancelled` of a run is never
left if and only if no call of `execute`, `resume` or `retry_node` finds the run cancelled when it
performs its write of `running` (after having read another status) or its final write of `succeeded` or
`failed`. -/
theorem cancelled_absorbing_iff (jsonb : Json → Json) (s : State) (acts : List Action) (r : RunId) :
    Frozen (Cancelled r) (fun p => p.state.runStatus? r) (play (step jsonb) (start s) acts) ↔
      ∀ t ∈ play (step jsonb) (start s) acts, Overwrites r t.pre t.act → ¬ Cancelled r t.pre := by
  have hrun : Run (step jsonb) (start s) _ _ := play_run (start s) acts
  have hissues := hrun.invariant_of_step
    (I := fun p => ∀ t ∈ p.threads, ∀ q ∈ t.rest, q.Issues t.call.MayIssue)
    (fun h hp => Pool.issues_step issues_prog h hp) (List.forall_mem_nil _)
  have hdep : ∀ {p p' : System}, Cancelled r p → p'.state.runStatus? r = p.state.runStatus? r →
      Cancelled r p' := fun hp heq => heq.trans hp
  rw [hrun.frozen_iff hdep]
  constructor
  · intro hall t ht ho hc
    exact not_cancelled_of_overwrites (hrun.step_of_mem ht) ho ((hall t ht hc).trans hc)
  · intro hall t ht hc
    have hpost : Cancelled r t.post :=
      cancelled_of_not_overwrites (hrun.step_of_mem ht) (hissues t ht).1 hc (fun ho => hall t ht ho hc)
    exact hpost.trans hc.symm

/-- The worker is running the only node when another process, which has no event for the run, cancels it. -/
def lateFinish : List Action :=
  .call (.execute 0 0) :: go 0 11 succeeds ++ .call (.cancel 1 0) :: go 1 4 succeeds ++ go 0 6 succeeds

/-- A cancelled run does not stay cancelled in general: it ends as succeeded. -/
theorem cancelled_overwritten :
    ¬ ∀ (jsonb : Json → Json) (s : State) (acts : List Action) (r : RunId),
      Frozen (Cancelled r) (fun p => p.state.runStatus? r) (play (step jsonb) (start s) acts) := by
  intro h
  exact absurd (h id (freshState loadVersion) lateFinish 0) (by decide +kernel)

end Irip.Flow
