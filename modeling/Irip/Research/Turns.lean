import Irip.Jobs.Identity
import Irip.Research.Effects

/-!
# `Research.Turns` — the writers of a turn's status against the transition table

Only the planning half of the timeline moves a turn by compare-and-set. `submit_run` assigns `queued` to the turn
it has read in an earlier statement, and the finalizer assigns `succeeded` or `run_failed` to whatever the turn has
become; nothing ever assigns `running`, from which alone the table leads to those two.
-/

namespace Irip.Research

open Runs
open Jobs (uuidText uuidAt ResearchTaskPrincipal)
open TurnStateMachine (Edge)

/-! ## No turn is running -/

/-- No turn has the status `running`. -/
def NoneRunning (s : Sys) : Prop := ∀ t, s.db.turnStatus? t ≠ some .running

section Steps

variable {s s' : Sys} {a : Action} {t : TurnId} {st st' : TurnStatus}

theorem Execution.assigns_cases {e : Execution} {x : ExecAction} (h : e.assigns s x t = some st) :
    st = .succeeded ∨ st = .runFailed := by
  unfold Execution.assigns at h
  split at h
  · split at h
    · split at h
      · exact .inl (Option.some.inj h).symm
      · cases h
    · split at h
      · exact .inr (Option.some.inj h).symm
      · cases h
    · cases h
  · cases h

theorem Action.assigns_cases (h : a.assigns s t = some st) :
    (∃ i x, a = .submit i ∧ s.submits[i]? = some x ∧ x.turnId = t ∧ st = .queued) ∨
    (∃ i e x, a = .exec i x ∧ s.execs[i]? = some e ∧ e.assigns s x t = some st ∧
      (st = .succeeded ∨ st = .runFailed)) := by
  cases a with
  | submit i =>
    obtain ⟨x, hx, h⟩ := Option.bind_eq_some_iff.mp h
    split at h
    · next heq => exact .inl ⟨i, x, rfl, hx, heq, (Option.some.inj h).symm⟩
    · cases h
  | exec i x =>
    obtain ⟨e, he, h⟩ := Option.bind_eq_some_iff.mp h
    exact .inr ⟨i, e, x, rfl, he, h, Execution.assigns_cases h⟩
  | _ => cases h

theorem not_running_of_cas (h : (st, st') ∈ casMoves) : st' ≠ .running := by
  intro heq
  subst heq
  revert h
  cases st <;> decide

/-- **No step makes a turn `running`.** -/
theorem noneRunning_step (h : step s a = some s') (hinv : NoneRunning s) : NoneRunning s' := by
  intro t hrunning
  cases hst : s.db.turnStatus? t with
  | none =>
    have hnew := turnStatus_new h hst hrunning
    cases hnew
  | some st =>
    obtain ⟨st', hst', hcase⟩ := turnStatus_step h hst
    rw [hst'] at hrunning
    obtain rfl := Option.some.inj hrunning
    rcases hcase with hassigns | ⟨-, rfl | ⟨hmove, -⟩⟩
    · -- the three statuses that are assigned outright
      rcases Action.assigns_cases hassigns with ⟨_, _, _, _, _, heq⟩ | ⟨_, _, _, _, _, _, heq | heq⟩
      · cases heq
      · cases heq
      · cases heq
    · exact hinv t hst
    · exact not_running_of_cas hmove rfl

theorem noneRunning_init : NoneRunning init := by
  intro t h
  simp [init, Db.turnStatus?] at h

end Steps

/-! ## The table -/

/-- The step assigns the turn a status that the table does not lead to: `submit_run` finds that the turn has moved
on since it was read, or the finalizer closes a turn that is not closed that way already. -/
def Action.BreaksTable (s : Sys) (a : Action) (t : TurnId) : Prop :=
  ∃ st ∈ s.db.turnStatus? t,
    match a with
    | .submit i =>
      (s.submits[i]?.map Submit.turnId) = some t ∧ st ∉ [TurnStatus.planConfirmed, .runFailed, .queued]
    | .exec i x =>
      ∃ e ∈ s.execs[i]?, ∃ target ∈ e.assigns s x t, target ≠ st
    | _ => False

section Table

variable {s s' : Sys} {a : Action} {t : TurnId} {st target : TurnStatus}

/-- In a state without a running turn an assignment is an edge unless the step breaks the table. -/
theorem edge_of_assigns (hinv : NoneRunning s) (hst : s.db.turnStatus? t = some st)
    (ha : a.assigns s t = some target) : Edge st target ↔ ¬ a.BreaksTable s t := by
  have hnot : st ≠ .running := by
    intro heq
    exact hinv t (heq ▸ hst)
  rcases Action.assigns_cases ha with ⟨i, x, rfl, hx, rfl, rfl⟩ | ⟨i, e, x, rfl, he, hassigns, hclosed⟩
  · -- the edges to `queued`
    simp only [Action.BreaksTable, hst, hx, Option.mem_def, Option.some.injEq, exists_eq_left', Option.map_some,
      true_and, not_not]
    cases st <;> decide
  · simp only [Action.BreaksTable, hst, he, hassigns, Option.mem_def, Option.some.injEq, exists_eq_left', not_not]
    constructor
    · intro hedge
      rcases hedge.from_running hclosed with heq | heq
      · exact heq.symm
      · exact absurd heq hnot
    · intro heq
      rw [heq]
      exact TurnStateMachine.Edge.refl st

theorem assigns_of_breaksTable (h : a.BreaksTable s t) :
    ∃ st target, s.db.turnStatus? t = some st ∧ a.assigns s t = some target := by
  obtain ⟨st, hst, h⟩ := h
  cases a with
  | submit i =>
    obtain ⟨x, hx, hturn⟩ := Option.map_eq_some_iff.mp h.1
    exact ⟨st, .queued, hst, by simp [Action.assigns, hx, hturn]⟩
  | exec i x =>
    obtain ⟨e, he, target, htarget, -⟩ := h
    refine ⟨st, target, hst, ?_⟩
    have hrow : s.execs[i]? = some e := he
    simpa [Action.assigns, hrow] using htarget
  | _ => exact absurd h id

theorem edge_of_casMoves (h : (st, target) ∈ casMoves) : Edge st target := by
  revert h
  cases st <;> cases target <;> decide

end Table

/-! ## Runs -/

/-- Every change of a turn's status is an edge of the table: in particular a turn comes to `succeeded` and to
`run_failed` from `running`, and the last statuses of the table are not left. -/
structure TurnsConform (ts : List (Transition Sys Action)) : Prop where
  edge : ∀ u ∈ ts, ∀ t st st', u.pre.db.turnStatus? t = some st → u.post.db.turnStatus? t = some st' → Edge st st'
  closing : ∀ u ∈ ts, ∀ t st st', u.pre.db.turnStatus? t = some st → u.post.db.turnStatus? t = some st' →
    st' = .succeeded ∨ st' = .runFailed → st' = st ∨ st = .running
  last : ∀ u ∈ ts, ∀ t st st', u.pre.db.turnStatus? t = some st → u.post.db.turnStatus? t = some st' →
    st ∈ [TurnStatus.conclusionReviewed, .succeededWithoutSavedConclusion, .cancelled] → st' = st

theorem turnsConform_of_edge {ts : List (Transition Sys Action)}
    (h : ∀ u ∈ ts, ∀ t st st', u.pre.db.turnStatus? t = some st → u.post.db.turnStatus? t = some st' →
      Edge st st') : TurnsConform ts := by
  refine ⟨h, ?_, ?_⟩
  · intro u hu t st st' hst hst' hclosing
    rcases (h u hu t st st' hst hst').from_running hclosing with heq | heq
    · exact .inl heq.symm
    · exact .inr heq
  · intro u hu t st st' hst hst' hlast
    apply (h u hu t st st' hst hst').of_terminal
    simp only [List.mem_cons, List.not_mem_nil, or_false] at hlast
    rcases hlast with rfl | rfl | rfl
    · decide
    · decide
    · decide

/-- **The turns conform to the table exactly in the runs in which no step breaks it.** For any interleaving of the
parties, every change of a turn's status is an edge of the table if and only if every submission commits while
its turn is `plan_confirmed`, `run_failed` or `queued`, and no finalizer assigns its turn a status that the turn
does not have already. -/
theorem turnsConform_iff (acts : List Action) :
    TurnsConform (play step init acts) ↔ ∀ u ∈ play step init acts, ∀ t, ¬ u.act.BreaksTable u.pre t := by
  have hrun : Run step init _ _ := play_run init acts
  have hinv := hrun.invariant_of_step (I := NoneRunning) noneRunning_step noneRunning_init
  constructor
  · intro h u hu t hbreaks
    obtain ⟨st, target, hst, hassigns⟩ := assigns_of_breaksTable hbreaks
    obtain ⟨st', hst', hcase⟩ := turnStatus_step (hrun.step_of_mem hu) hst
    have heq : target = st' := by
      rcases hcase with heq | ⟨hnone, -⟩
      · exact Option.some.inj (hassigns.symm.trans heq)
      · rw [hassigns] at hnone
        cases hnone
    subst heq
    exact (edge_of_assigns (hinv u hu).1 hst hassigns).mp (h.edge u hu t st target hst hst') hbreaks
  · intro h
    apply turnsConform_of_edge
    intro u hu t st st' hst hst'
    obtain ⟨st'', hst'', hcase⟩ := turnStatus_step (hrun.step_of_mem hu) hst
    obtain rfl := Option.some.inj (hst''.symm.trans hst')
    rcases hcase with hassigns | ⟨-, rfl | ⟨hmove, -⟩⟩
    · exact (edge_of_assigns (hinv u hu).1 hst hassigns).mpr (h u hu t)
    · exact TurnStateMachine.Edge.refl _
    · exact edge_of_casMoves hmove

/-- A turn with a confirmed plan. -/
def confirmedTurn : List Action :=
  [.request (.createWorkspace 0 0), .request (.freezeSnapshot 0 0 0), .request (.createTurn 0 0 0 "question"),
   .request (.startPlanning 0 0 0 0), .dispatch 1 true, .startPlan 0, .generatePlan 0, .bindPlan 0,
   .request (.confirmPlan 0 0 0 0)]

/-- Its run is submitted and claimed. -/
def claimedRun : List Action := confirmedTurn ++ [.checkSubmit 0 0 0 0, .submit 0, .dispatch 2 true, .claim 0]

/-- The analysis succeeds and nothing interferes. -/
def finishedRun : List Action :=
  claimedRun ++ [.exec 0 (.analyze 1), .exec 0 .completeRead, .exec 0 .completeFlush, .exec 0 .completeCommit]

/-! ### Messages of a run

The dispatcher reads the identities of a message off the texts of a payload, as it wrote them. -/

theorem exists_route (ev : OutboxEvent) :
    ∃ taskName queue, Jobs.researchEventRoutes.lookup ev.row.eventType = some (taskName, queue) := by
  show ∃ taskName queue, Jobs.researchEventRoutes.lookup ev.eventType.value = some (taskName, queue)
  cases ev.eventType with
  | planRequested => exact ⟨"research.plans.generate", "irip-research", by decide⟩
  | recommendationRequested => exact ⟨"research.recommendations.generate", "irip-research", by decide⟩
  | runRequested => exact ⟨"research.run.execute", "irip-research", by decide⟩
  | candidateExtractionRequested => exact ⟨"research.candidates.extract", "irip-research", by decide⟩

theorem message?_of_principal {ev : OutboxEvent} {actor dept ws : Nat}
    (h : ev.payload = principalPayload (uuidText actor) (uuidText dept) (uuidText ws)) :
    ev.message? = some
      { eventType := ev.eventType, aggregateId := ev.aggregateId, actorId := some (actor % 16 ^ 32),
        departmentId := some (dept % 16 ^ 32), workspaceId := some (ws % 16 ^ 32) } := by
  obtain ⟨taskName, queue, hroute⟩ := exists_route ev
  have hactor : uuidAt ev.payload "actor_id" = some (actor % 16 ^ 32) := by
    simp [h, uuidAt, principalPayload, Jobs.scalarText, Jobs.parseUuid_uuidText]
  have hdept : uuidAt ev.payload "department_id" = some (dept % 16 ^ 32) := by
    simp [h, uuidAt, principalPayload, List.lookup_cons, Jobs.scalarText, Jobs.parseUuid_uuidText]
  have hws : uuidAt ev.payload "workspace_id" = some (ws % 16 ^ 32) := by
    simp [h, uuidAt, principalPayload, List.lookup_cons, Jobs.scalarText, Jobs.parseUuid_uuidText]
  have hprincipal : ResearchTaskPrincipal.fromPayload ev.payload =
      some ⟨actor % 16 ^ 32, dept % 16 ^ 32, ws % 16 ^ 32⟩ := by
    rw [ResearchTaskPrincipal.fromPayload, hactor, hdept, hws]
  have htruthy : ev.payload.truthy = true := by
    rw [h]
    rfl
  have hpayload : ev.row.payload = some ev.payload := rfl
  obtain ⟨hactor', hdept', hws'⟩ := Jobs.lookup_asKwargs ⟨actor % 16 ^ 32, dept % 16 ^ 32, ws % 16 ^ 32⟩
  unfold OutboxEvent.message? Jobs.route taskId
  rw [hroute, hpayload]
  simp only [htruthy, if_true, hprincipal, Option.map_some, hactor', hdept', hws', Option.bind_some,
    Jobs.parseUuid_uuidText, Nat.mod_mod]

/-- The event has been delivered as a message, all identities of which are 0. -/
def Sys.delivered (s : Sys) (e : Nat) (t : EventType) : Sys :=
  { s with
    db := { s.db with outbox := Table.update s.db.outbox [e] (deliveredStmt s.now) }
    broker := s.broker ++
      [{ eventType := t, aggregateId := 0, actorId := some 0, departmentId := some 0, workspaceId := some 0 }] }

section Delivery

variable {σ α : Type} {step : σ → α → Option σ} {get : σ → Sys} {set : σ → Sys → σ}

/-- What is played around a delivery. -/
def playDelivered (step : σ → α → Option σ) (get : σ → Sys) (set : σ → Sys → σ) (s : σ) (before : List α) (a : α) (e : Nat)
    (t : EventType) (after : List α) : List (Transition σ α) :=
  let m := final s (play step s before)
  play step s before ++ ⟨m, a, set m ((get m).delivered e t)⟩ :: play step (set m ((get m).delivered e t)) after

/-- **A delivery**, in a system of which the timeline is a part. -/
theorem play_delivery {a : α} {e : Nat} {t : EventType} {s : σ} {before : List α}
    (hstep : ∀ s, step s a = (Research.step (get s) (.dispatch e true)).map (set s))
    (hlength : (play step s before).length = before.length)
    (hevent : (get (final s (play step s before))).db.outbox[e]?.map
      (fun ev => (ev.eventType, ev.aggregateId, ev.deliveredAt, ev.payload)) =
        some (t, 0, none, principalPayload (uuidText 0) (uuidText 0) (uuidText 0)))
    (after : List α) : play step s (before ++ a :: after) = playDelivered step get set s before a e t after := by
  obtain ⟨ev, hev, hfields⟩ := Option.map_eq_some_iff.mp hevent
  simp only [Prod.mk.injEq] at hfields
  obtain ⟨rfl, haggregate, hnew, hpayload⟩ := hfields
  rw [play_append hlength, play_cons]
  · rfl
  · rw [hstep]
    show Option.map _ ((some _).bind _) = _
    rw [Option.bind_some]
    show Option.map _ (Option.map _ (Option.bind _ _)) = _
    rw [hev, Option.bind_some, if_pos hnew, message?_of_principal hpayload, haggregate]
    rfl

/-- What is played around the deliveries for a plan and for a run. -/
def playFinished (step : σ → α → Option σ) (get : σ → Sys) (set : σ → Sys → σ) (s : σ) (before : List α) (a : α)
    (between : List α) (b : α) (after : List α) : List (Transition σ α) :=
  let m := final s (play step s before)
  playDelivered step get set s before a 1 .planRequested [] ++
    playDelivered step get set (set m ((get m).delivered 1 .planRequested)) between b 2 .runRequested after

theorem play_deliveries (before between after : List α) {a b : α} {s m : σ}
    (hplan : play step s (before ++ a :: (between ++ b :: after)) =
      playDelivered step get set s before a 1 .planRequested (between ++ b :: after))
    (hm : set (final s (play step s before)) ((get (final s (play step s before))).delivered 1 .planRequested) = m)
    (hrun : play step m (between ++ b :: after) = playDelivered step get set m between b 2 .runRequested after) :
    play step s (before ++ a :: (between ++ b :: after)) = playFinished step get set s before a between b after := by
  subst hm
  rw [hplan, playFinished, playDelivered, playDelivered, List.append_assoc, hrun]
  rfl

end Delivery

/-- The transitions of a list of actions around a delivery. -/
abbrev playSent (s : Sys) (before : List Action) (e : Nat) (t : EventType) (after : List Action) :=
  playDelivered step id (fun _ t => t) s before (.dispatch e true) e t after

/-- The turn of `confirmedTurn` waits for its plan. -/
def planning : Sys := (final init (play step init (confirmedTurn.take 4))).delivered 1 .planRequested

def untilPlanning : List (Transition Sys Action) := playSent init (confirmedTurn.take 4) 1 .planRequested []

theorem step_dispatch (e : Nat) (s : Sys) :
    step s (.dispatch e true) = (step s (.dispatch e true)).map (fun t => t) := Option.map_id'.symm

theorem play_confirmedTurn (rest : List Action) : play step init (confirmedTurn ++ rest) =
    untilPlanning ++ play step planning (confirmedTurn.drop 5 ++ rest) := by
  have hsent : _ = playSent init (confirmedTurn.take 4) 1 .planRequested (confirmedTurn.drop 5 ++ rest) :=
    play_delivery (step_dispatch 1) rfl rfl _
  refine hsent.trans ?_
  rw [untilPlanning, playSent, playSent, playDelivered, playDelivered, List.append_assoc]
  rfl

theorem play_claimedRun (rest : List Action) : play step init (claimedRun ++ rest) =
    untilPlanning ++ playSent planning (confirmedTurn.drop 5 ++ [.checkSubmit 0 0 0 0, .submit 0]) 2 .runRequested
      (.claim 0 :: rest) := by
  have hsent : _ = playSent planning (confirmedTurn.drop 5 ++ [.checkSubmit 0 0 0 0, .submit 0]) 2 .runRequested
      (.claim 0 :: rest) := play_delivery (step_dispatch 2) rfl rfl _
  rw [claimedRun, List.append_assoc, play_confirmedTurn]
  exact congrArg _ hsent

/-- Turns do not conform to the table in general: the turn of a run that succeeds goes from `queued` to
`succeeded`. -/
theorem turns_not_conform : ¬ ∀ acts : List Action, TurnsConform (play step init acts) := by
  intro h
  have hclosed : ∃ u ∈ play step init finishedRun, u.pre.db.turnStatus? 0 = some .queued ∧
      u.post.db.turnStatus? 0 = some .succeeded := by
    rw [finishedRun, play_claimedRun]
    decide +kernel
  obtain ⟨u, hu, hpre, hpost⟩ := hclosed
  exact absurd ((h finishedRun).edge u hu 0 _ _ hpre hpost) (by decide)

end Irip.Research
