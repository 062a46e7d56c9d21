import Irip.Research.Turns

/-!
# `Research.Agreement` — a turn is open as long as its run is

`submit_run` and the finalizer write a run together with its turn. The user's cancellation, the reconciler, the
heartbeat and the legacy orchestrator write the run alone, and from `queued` no operation moves the turn.
-/

namespace Irip.Research

open Runs
open TurnStateMachine (isActive)

/-! ## Agreement -/

/-- The turn has a run that waits for a worker or is with one. -/
def Db.Pending (db : Db) (t : TurnId) : Prop :=
  ∃ (r : RunId) (run : AnalysisRun), db.runs[r]? = some run ∧ run.turnId = some t ∧ run.status.isPending = true

/-- A turn is `queued` or `running` if and only if it has a run that is. -/
def Db.Agree (db : Db) : Prop := ∀ t st, db.turnStatus? t = some st → (isActive st = true ↔ db.Pending t)

/-- No transaction of the finalizer is open. -/
def Sys.Settled (s : Sys) : Prop :=
  ∀ e ∈ s.execs, e.phase = .analyzing ∨ e.phase = .completing ∨ e.phase = .failing ∨ e.phase = .done

/-- The run is pending and belongs to a turn. -/
def Db.pendsOnTurn (db : Db) (r : RunId) : Bool :=
  db.runs[r]?.any (fun run => run.turnId.isSome && run.status.isPending)

/-- The step takes a pending run from its turn, or submits one past its turn. -/
def Action.severs (s : Sys) (a : Action) : Bool :=
  match a with
  | .request (.submitRun _ _ _ t _ _) => t.isSome
  | .cancel i => s.cancels[i]?.any s.db.pendsOnTurn
  | .reconcile _ rs _ => rs.any (fun r => s.db.pendsOnTurn r && s.db.runStatus? r == some .running)
  | .expireHeartbeat r => s.db.pendsOnTurn r
  | .legacyFinish i _ => s.legacies[i]?.any s.db.pendsOnTurn
  | .orchestratorCancel r => s.db.pendsOnTurn r
  | _ => false

/-! ## The invariant -/

/-- What the phase of an execution says its finalizer has read. -/
def Phase.Current : Phase → Prop
  | .completeFlushed seenTurn => seenTurn = some .queued
  | .failRead seenRun => seenRun = some .running
  | .failFlushed seenRun seenTurn => seenRun = some .running ∧ seenTurn = some .queued
  | _ => True

/-- The execution has not come to its end, and is of the run of a turn. -/
def Execution.Works (e : Execution) : Prop := e.phase ≠ .done ∧ e.turnId.isSome = true

/-- Runs, turns, submissions and executions are where they belong. -/
structure Joined (s : Sys) : Prop where
  noneRunning : NoneRunning s
  execs : ExecsSound s
  agree : s.db.Agree
  owned : ∀ (r : RunId) (run : AnalysisRun) t, s.db.runs[r]? = some run → run.turnId = some t →
    s.db.turnWorkspace? t = some run.workspaceId
  single : ∀ (r r' : RunId) (run run' : AnalysisRun), s.db.runs[r]? = some run → s.db.runs[r']? = some run' →
    run.status.isActive = true → run'.status.isActive = true → run.workspaceId = run'.workspaceId → r = r'
  submits : ∀ x ∈ s.submits, s.db.turnWorkspace? x.turnId = some x.workspaceId
  working : ∀ e ∈ s.execs, e.Works → s.db.runStatus? e.run = some .running ∧ e.phase.Current
  alone : ∀ (i j : Nat) (e e' : Execution), s.execs[i]? = some e → s.execs[j]? = some e' → e.Works → e'.Works →
    e.run = e'.run → i = j

theorem joined_init : Joined init where
  noneRunning := noneRunning_init
  execs := execsSound_init
  agree := by
    intro t st h
    cases h
  owned := by
    intro r run t h
    cases h
  single := by
    intro r r' run run' h
    cases h
  submits := by
    intro x hx
    exact absurd hx List.not_mem_nil
  working := by
    intro e he
    exact absurd he List.not_mem_nil
  alone := by
    intro i j e e' h
    cases h

section Steps

variable {s s' : Sys} {a : Action}

theorem isActive_of_isPending {st : RunStatus} (h : st.isPending = true) : st.isActive = true := by
  rw [RunStatus.isPending_iff] at h
  rw [RunStatus.isActive_iff]
  rcases h with h | h
  · exact .inl h
  · exact .inr (.inr h)

variable {run : AnalysisRun} {r : RunId} {t : TurnId} {st st' : TurnStatus} {x : ExecAction} {e : Execution}

theorem pendsOnTurn_of {db : Db} (hr : db.runs[r]? = some run)
    (ht : run.turnId = some t) (hp : run.status.isPending = true) : db.pendsOnTurn r = true := by
  unfold Db.pendsOnTurn
  rw [hr, Option.any_some, ht, hp]
  rfl

/-- **Outside the finalizer a step that severs nothing leaves the runs of turns as pending as they were.** -/
theorem isPending_onRun (h : step s a = some s')
    (hns : a.severs s = false) (hexec : ∀ i x, a ≠ .exec i x) (hr : s.db.runs[r]? = some run)
    (ht : run.turnId = some t) : (a.onRun s r run).status.isPending = run.status.isPending := by
  have hst : s.db.runStatus? r = some run.status := by simp [Db.runStatus?, hr]
  show ((a.setsRun s r).getD run.status).isPending = _
  cases hsets : a.setsRun s r with
  | none => rfl
  | some st =>
    rw [Option.getD_some]
    rcases setsRun_cases h hsets with ⟨rfl, hqueued, -⟩ | hinactive
    · rw [hst] at hqueued
      rw [Option.some.inj hqueued]
      rfl
    · have hnot : st.isPending = false := by
        by_contra hne
        rw [isActive_of_isPending (by simpa using hne)] at hinactive
        cases hinactive
      rw [hnot]
      -- had the run been pending, the step would have taken it from its turn
      by_contra hne
      have hpends : s.db.pendsOnTurn r = true := by
        apply pendsOnTurn_of hr ht
        cases hp : run.status.isPending with
        | true => rfl
        | false => exact absurd hp.symm hne
      have hsevers : a.severs s = true := by
        cases a with
        | exec i x => exact absurd rfl (hexec i x)
        | cancel i =>
          simp only [Action.setsRun] at hsets
          split at hsets
          · next hi => simp [Action.severs, hi, hpends]
          · cases hsets
        | claim m =>
          simp only [Action.setsRun] at hsets
          split at hsets
          · obtain rfl := Option.some.inj hsets
            cases hinactive
          · cases hsets
        | reconcile clock rs js =>
          simp only [Action.setsRun] at hsets
          split at hsets
          · next hmem =>
              simp only [Action.severs, List.any_eq_true]
              exact ⟨r, hmem.1, by simp [hpends, hmem.2]⟩
          · cases hsets
        | expireHeartbeat r' =>
          simp only [Action.setsRun] at hsets
          split at hsets
          · next heq => rwa [heq] at hpends
          · cases hsets
        | legacyFinish i status =>
          simp only [Action.setsRun] at hsets
          split at hsets
          · next hi => simp [Action.severs, hi, hpends]
          · cases hsets
        | orchestratorCancel r' =>
          simp only [Action.setsRun] at hsets
          split at hsets
          · next heq => rwa [heq] at hpends
          · cases hsets
        | _ => cases hsets
      rw [hns] at hsevers
      cases hsevers

theorem isActive_turn_step (h : step s a = some s') (hinv : NoneRunning s)
    (ha : a.assigns s t = none) (hst : s.db.turnStatus? t = some st) (hst' : s'.db.turnStatus? t = some st') :
    isActive st' = isActive st := by
  obtain ⟨st'', hst'', hcase⟩ := turnStatus_step h hst
  obtain rfl := Option.some.inj (hst''.symm.trans hst')
  rcases hcase with hassigns | ⟨-, rfl | ⟨hmove, -⟩⟩
  · rw [ha] at hassigns
    cases hassigns
  · rfl
  · have hnot : st ≠ .running := by
      intro heq
      exact hinv t (heq ▸ hst)
    revert hmove hnot
    cases st <;> cases st'' <;> decide

theorem turn_of_run_step (hj : Joined s) (h : step s a = some s')
    (hns : a.severs s = false) (hr : s'.db.runs[r]? = some run) (ht : run.turnId = some t) :
    s.db.turnWorkspace? t = some run.workspaceId := by
  cases hpre : s.db.runs[r]? with
  | some run₀ =>
    have hrow := run_step h hpre
    rw [hr] at hrow
    obtain rfl := Option.some.inj hrow
    exact hj.owned r run₀ t hpre ht
  | none =>
    obtain ⟨-, hnew⟩ := run_new h hpre hr
    cases hnew with
    | @submit i x p hx _ =>
      obtain rfl := Option.some.inj ht
      exact hj.submits x (List.mem_of_getElem? hx)
    | @submitPlan ws p snapshot t' actor dept _ =>
      have hnone : t'.isSome = false := hns
      have ht' : t' = some t := ht
      rw [ht'] at hnone
      cases hnone
    | @analyze i e blocks he =>
      obtain ⟨run₀, hrun₀, hturn, hws⟩ := hj.execs e (List.mem_of_getElem? he)
      have howned := hj.owned e.run run₀ t hrun₀ (hturn.trans ht)
      rw [hws] at howned
      exact howned

theorem active_of_step {run' : AnalysisRun} (h : step s a = some s')
    (hr : s.db.runs[r]? = some run) (hr' : s'.db.runs[r]? = some run') (hact : run'.status.isActive = true) :
    run.status.isActive = true ∧ run'.workspaceId = run.workspaceId := by
  have hst : s.db.runStatus? r = some run.status := by simp [Db.runStatus?, hr]
  rw [run_step h hr] at hr'
  obtain rfl := Option.some.inj hr'
  refine ⟨?_, rfl⟩
  have hact' : ((a.setsRun s r).getD run.status).isActive = true := hact
  cases hsets : a.setsRun s r with
  | none => rwa [hsets] at hact'
  | some st =>
    rw [hsets, Option.getD_some] at hact'
    rcases setsRun_cases h hsets with ⟨-, hqueued, -⟩ | hinactive
    · rw [hst] at hqueued
      rw [Option.some.inj hqueued]
      rfl
    · rw [hact'] at hinactive
      cases hinactive

theorem inactive_of_activeRun? {db : Db} {ws : WorkspaceId}
    (h : db.activeRun? ws = none) (hr : db.runs[r]? = some run) (hws : run.workspaceId = ws) :
    run.status.isActive = false := by
  have hall := List.findIdx?_eq_none_iff.mp h run (List.mem_of_getElem? hr)
  simpa [hws] using hall

theorem inactive_of_newRun {new : AnalysisRun} (hnew : NewRun s a new)
    (hact : new.status.isActive = true) (hr : s.db.runs[r]? = some run) (hws : run.workspaceId = new.workspaceId) :
    run.status.isActive = false := by
  cases hnew with
  | submit _ hfree | submitPlan hfree => exact inactive_of_activeRun? hfree hr hws
  | analyze => cases hact

/-- **A workspace has one active run at most.** -/
theorem single_step (hj : Joined s) (h : step s a = some s') (r r' : RunId) (run run' : AnalysisRun)
    (hr : s'.db.runs[r]? = some run) (hr' : s'.db.runs[r']? = some run') (hact : run.status.isActive = true)
    (hact' : run'.status.isActive = true) (hws : run.workspaceId = run'.workspaceId) : r = r' := by
  cases hpre : s.db.runs[r]? with
  | some run₀ =>
    obtain ⟨hact₀, hws₀⟩ := active_of_step h hpre hr hact
    cases hpre' : s.db.runs[r']? with
    | some run₁ =>
      obtain ⟨hact₁, hws₁⟩ := active_of_step h hpre' hr' hact'
      exact hj.single r r' run₀ run₁ hpre hpre' hact₀ hact₁ (by rw [← hws₀, hws, hws₁])
    | none =>
      obtain ⟨-, hnew⟩ := run_new h hpre' hr'
      rw [inactive_of_newRun hnew hact' hpre (by rw [← hws₀, hws])] at hact₀
      cases hact₀
  | none =>
    obtain ⟨hlen, hnew⟩ := run_new h hpre hr
    cases hpre' : s.db.runs[r']? with
    | some run₁ =>
      obtain ⟨hact₁, hws₁⟩ := active_of_step h hpre' hr' hact'
      rw [inactive_of_newRun hnew hact hpre' (by rw [← hws₁, hws])] at hact₁
      cases hact₁
    | none =>
      obtain ⟨hlen', -⟩ := run_new h hpre' hr'
      rw [hlen, hlen']

theorem submits_joined (hj : Joined s) (h : step s a = some s') :
    ∀ x ∈ s'.submits, s'.db.turnWorkspace? x.turnId = some x.workspaceId := by
  intro x hx
  apply turnWorkspace?_step h
  rcases submits_step h hx with hold | ⟨hrow, hws⟩
  · exact hj.submits x hold
  · simp [Db.turnWorkspace?, hrow, hws]

/-! ### Executions at work -/

theorem queued_of_running (hj : Joined s)
    (hr : s.db.runs[r]? = some run) (ht : run.turnId = some t) (hrunning : run.status = .running) :
    s.db.turnStatus? t = some .queued := by
  obtain ⟨turn, hturn, -⟩ := Option.map_eq_some_iff.mp (hj.owned r run t hr ht)
  have hst : s.db.turnStatus? t = some turn.status := by simp [Db.turnStatus?, hturn]
  have hopen : isActive turn.status = true :=
    (hj.agree t turn.status hst).mpr ⟨r, run, hr, ht, by rw [hrunning]; rfl⟩
  rcases TurnStateMachine.isActive_iff.mp hopen with heq | heq
  · rw [hst, heq]
  · exact absurd (heq ▸ hst) (hj.noneRunning t)

theorem works_of_next {phase : Phase} (h : e.next s x = some phase) : e.phase ≠ .done := by
  intro hdone
  cases x <;> simp [Execution.next, hdone] at h

theorem setsRun_of_next {phase : Phase} (h : e.next s x = some phase)
    (hphase : phase ≠ .done) : e.setsRun s x = none := by
  cases x with
  | completeCommit =>
    cases hp : e.phase with
    | completeFlushed seenTurn =>
      simp only [Execution.next, hp, TimelineRunFinalizer.isSome_complete] at h
      by_cases hc : e.completes s.db = true
      · have hany : (e.turnId.any fun t => !TimelineRunFinalizer.resultRefused s.db e.run t) = true := hc
        rw [if_pos hany] at h
        exact absurd (Option.some.inj h).symm hphase
      · simp [Execution.setsRun, hp, hc]
    | _ => simp [Execution.setsRun, hp]
  | failCommit =>
    cases hp : e.phase with
    | failFlushed seenRun seenTurn =>
      simp only [Execution.next, hp] at h
      exact absurd (Option.some.inj h).symm hphase
    | _ => simp [Execution.setsRun, hp]
  | _ => simp [Execution.setsRun]

theorem current_of_next {phase : Phase}
    (h : e.next s x = some phase) (ht : e.turnId = some t) (hrun : s.db.runStatus? e.run = some .running)
    (hqueued : s.db.turnStatus? t = some .queued) (hcurrent : e.phase.Current) : phase.Current := by
  have hread : e.readTurn s.db = some .queued := by
    unfold Execution.readTurn
    rw [ht]
    exact hqueued
  cases x with
  | analyze blocks =>
    simp only [Execution.next] at h
    split at h
    · obtain rfl := Option.some.inj h
      trivial
    · cases h
  | raise =>
    simp only [Execution.next] at h
    split at h
    · obtain rfl := Option.some.inj h
      trivial
    · obtain rfl := Option.some.inj h
      trivial
    · obtain rfl := Option.some.inj h
      trivial
    · obtain rfl := Option.some.inj h
      trivial
    · cases h
  | completeRead =>
    simp only [Execution.next, hrun] at h
    split at h
    · obtain rfl := Option.some.inj h
      trivial
    · cases h
  | completeFlush =>
    simp only [Execution.next, hread] at h
    split at h
    · obtain rfl := Option.some.inj h
      rfl
    · cases h
  | completeCommit =>
    simp only [Execution.next] at h
    split at h
    · split at h
      · obtain rfl := Option.some.inj h
        trivial
      · obtain rfl := Option.some.inj h
        trivial
    · cases h
  | failRead =>
    simp only [Execution.next, hrun] at h
    split at h
    · obtain rfl := Option.some.inj h
      rfl
    · cases h
  | failFlush =>
    simp only [Execution.next, hread] at h
    split at h
    · next seenRun hphase =>
        split at h
        · cases h
        · obtain rfl := Option.some.inj h
          rw [hphase] at hcurrent
          exact ⟨hcurrent, rfl⟩
    · cases h
  | failCommit =>
    simp only [Execution.next] at h
    split at h
    · obtain rfl := Option.some.inj h
      trivial
    · cases h
  | crash redelivered =>
    simp only [Execution.next] at h
    split at h
    · cases h
    · obtain rfl := Option.some.inj h
      trivial

theorem Execution.Works.row (hw : e.Works) (hj : Joined s) (he : e ∈ s.execs) :
    ∃ run t, e.turnId = some t ∧ s.db.runs[e.run]? = some run ∧ run.turnId = some t ∧ run.status = .running := by
  obtain ⟨run, hrun, hturn, -⟩ := hj.execs e he
  obtain ⟨t, ht⟩ := Option.isSome_iff_exists.mp hw.2
  have hst := (hj.working e he hw).1
  unfold Db.runStatus? at hst
  rw [hrun, Option.map_some] at hst
  exact ⟨run, t, ht, hrun, hturn.trans ht, Option.some.inj hst⟩

theorem running_step (h : step s a = some s')
    (hns : a.severs s = false) (hr : s.db.runs[r]? = some run) (ht : run.turnId = some t)
    (hrunning : run.status = .running) (hown : ∀ i x, a = .exec i x → a.setsRun s r = none) :
    s'.db.runStatus? r = some .running := by
  have hst : s.db.runStatus? r = some .running := by simp [Db.runStatus?, hr, hrunning]
  rw [runStatus_step h hst]
  cases hsets : a.setsRun s r with
  | none => rfl
  | some st =>
    have hpending := isPending_onRun h hns (fun i x heq => by
      rw [hown i x heq] at hsets
      cases hsets) hr ht
    rcases setsRun_cases h hsets with ⟨rfl, -⟩ | hinactive
    · rfl
    · have hp : st.isPending = true := by
        simpa [Action.onRun, hsets, hrunning, RunStatus.isPending] using hpending
      rw [isActive_of_isPending hp] at hinactive
      cases hinactive

/-- **The executions at work after a step.** Each is the only one of its run. -/
theorem execs_joined (hj : Joined s) (h : step s a = some s') (hns : a.severs s = false) :
    (∀ e ∈ s'.execs, e.Works → s'.db.runStatus? e.run = some .running ∧ e.phase.Current) ∧
      ∀ (i j : Nat) (e e' : Execution), s'.execs[i]? = some e → s'.execs[j]? = some e' → e.Works → e'.Works →
        e.run = e'.run → i = j := by
  have hafter := execs_step h
  generalize s'.execs = execs at hafter ⊢
  cases hafter with
  | same hexec =>
    refine ⟨?_, hj.alone⟩
    intro e he hw
    obtain ⟨run, t, -, hrun, hturn, hrunning⟩ := hw.row hj he
    exact ⟨running_step h hns hrun hturn hrunning (fun i x heq => absurd heq (hexec i x)), (hj.working e he hw).2⟩
  | @stepped i x e₀ phase he₀ hnext =>
    have hmem₀ := List.mem_of_getElem? he₀
    -- the execution that steps has been at work if it still is
    have hworks : Execution.Works { e₀ with phase := phase } → e₀.Works :=
      fun hw => ⟨works_of_next hnext, hw.2⟩
    have hrows : ∀ (j : Nat) (e : Execution), (s.execs.set i { e₀ with phase := phase })[j]? = some e →
        (j = i ∧ e = { e₀ with phase := phase }) ∨ (j ≠ i ∧ s.execs[j]? = some e) := by
      intro j e he
      rw [List.getElem?_set] at he
      split at he
      · next heq =>
          split at he
          · exact .inl ⟨heq.symm, (Option.some.inj he).symm⟩
          · cases he
      · next hne => exact .inr ⟨fun heq => hne heq.symm, he⟩
    constructor
    · intro e he hw
      obtain ⟨j, hj'⟩ := List.mem_iff_getElem?.mp he
      rcases hrows j e hj' with ⟨rfl, rfl⟩ | ⟨hne, hej⟩
      · have hw₀ := hworks hw
        obtain ⟨run, t, ht, hrun, hturn, hrunning⟩ := hw₀.row hj hmem₀
        obtain ⟨hst, hcurrent⟩ := hj.working e₀ hmem₀ hw₀
        refine ⟨running_step h hns hrun hturn hrunning ?_, ?_⟩
        · intro i' x' _
          have hnone := setsRun_of_next hnext hw.1
          simp [Action.setsRun, he₀, hnone]
        · exact current_of_next hnext ht hst (queued_of_running hj hrun hturn hrunning) hcurrent
      · have hmem := List.mem_of_getElem? hej
        obtain ⟨run, t, ht, hrun, hturn, hrunning⟩ := hw.row hj hmem
        refine ⟨running_step h hns hrun hturn hrunning ?_, (hj.working e hmem hw).2⟩
        intro i' x' _
        by_cases hsame : e₀.run = e.run
        · -- two executions of one run would both be at work
          obtain ⟨run', hrun', hturn', -⟩ := hj.execs e₀ hmem₀
          rw [hsame, hrun] at hrun'
          obtain rfl := Option.some.inj hrun'
          have hw₀ : e₀.Works := ⟨works_of_next hnext, by rw [← hturn', hturn]; rfl⟩
          exact absurd (hj.alone j i e e₀ hej he₀ hw hw₀ hsame.symm) hne
        · simp [Action.setsRun, he₀, hsame]
    · intro j k e e' he he' hw hw' hrun
      rcases hrows j e he with ⟨rfl, rfl⟩ | ⟨-, hej⟩
      · rcases hrows k e' he' with ⟨rfl, -⟩ | ⟨-, hek⟩
        · rfl
        · exact hj.alone j k e₀ e' he₀ hek (hworks hw) hw' hrun
      · rcases hrows k e' he' with ⟨rfl, rfl⟩ | ⟨-, hek⟩
        · exact hj.alone j k e e₀ hej he₀ hw (hworks hw') hrun
        · exact hj.alone j k e e' hej hek hw hw' hrun
  | @claimed m msg run hmsg hrun hqueued =>
    have hexec : ∀ i x, Action.claim m ≠ .exec i x := by
      intro i x heq
      cases heq
    -- the claimed run has been `queued`, so it is not the run of an execution at work
    have hfresh : ∀ e ∈ s.execs, e.Works → e.run ≠ msg.aggregateId := by
      intro e he hw heq
      have hst := (hj.working e he hw).1
      rw [heq] at hst
      simp [Db.runStatus?, hrun, hqueued] at hst
    constructor
    · intro e he hw
      rcases List.mem_append.mp he with hold | hnew
      · obtain ⟨run', t, -, hrun', hturn, hrunning⟩ := hw.row hj hold
        exact ⟨running_step h hns hrun' hturn hrunning (fun i x heq => absurd heq (hexec i x)),
          (hj.working e hold hw).2⟩
      · rw [List.mem_singleton] at hnew
        subst hnew
        have hst : s.db.runStatus? msg.aggregateId = some .queued := by simp [Db.runStatus?, hrun, hqueued]
        refine ⟨?_, trivial⟩
        show s'.db.runStatus? msg.aggregateId = _
        rw [runStatus_step h hst]
        simp [Action.setsRun, Action.claims, hmsg, hst]
    · intro j k e e' he he' hw hw' hsame
      have hrows : ∀ (j : Nat) (e : Execution), (s.execs ++ [Execution.ofClaim msg run])[j]? = some e →
          s.execs[j]? = some e ∨ (j = s.execs.length ∧ e = Execution.ofClaim msg run) := by
        intro j e he
        cases hold : s.execs[j]? with
        | none => exact .inr (Table.eq_of_getElem?_insert hold he)
        | some e₀ =>
          rw [List.getElem?_append_left (List.getElem?_eq_some_iff.mp hold).1, hold] at he
          exact .inl he
      rcases hrows j e he with hej | ⟨hlen, rfl⟩
      · rcases hrows k e' he' with hek | ⟨-, rfl⟩
        · exact hj.alone j k e e' hej hek hw hw' hsame
        · exact absurd hsame (hfresh e (List.mem_of_getElem? hej) hw)
      · rcases hrows k e' he' with hek | ⟨hlen', -⟩
        · exact absurd hsame.symm (hfresh e' (List.mem_of_getElem? hek) hw')
        · rw [hlen, hlen']

/-! ### Turns and runs -/

theorem pending_congr (h : step s a = some s')
    (hold : ∀ (r : RunId) (run : AnalysisRun), s.db.runs[r]? = some run → run.turnId = some t →
      (a.onRun s r run).status.isPending = run.status.isPending)
    (hnew : ∀ run, NewRun s a run → run.turnId = some t → run.status.isPending = false) :
    s'.db.Pending t ↔ s.db.Pending t := by
  constructor
  · rintro ⟨r, run', hr', ht, hp⟩
    cases hr : s.db.runs[r]? with
    | none =>
      rw [hnew run' (run_new h hr hr').2 ht] at hp
      cases hp
    | some run =>
      rw [run_step h hr] at hr'
      obtain rfl := Option.some.inj hr'
      rw [hold r run hr ht] at hp
      exact ⟨r, run, hr, ht, hp⟩
  · rintro ⟨r, run, hr, ht, hp⟩
    exact ⟨r, a.onRun s r run, run_step h hr, ht, (hold r run hr ht).trans hp⟩

theorem agree_new (hj : Joined s) (h : step s a = some s')
    (hns : a.severs s = false) (hnone : s.db.turnStatus? t = none) (hst : s'.db.turnStatus? t = some st) :
    isActive st = true ↔ s'.db.Pending t := by
  rw [turnStatus_new h hnone hst]
  refine iff_of_false (by decide) ?_
  rintro ⟨r, run, hr, ht, -⟩
  obtain ⟨turn, hturn, -⟩ := Option.map_eq_some_iff.mp (turn_of_run_step hj h hns hr ht)
  simp [Db.turnStatus?, hturn] at hnone

/-- **A submission** leaves its turn `queued` with a pending run. -/
theorem agree_submit {i : Nat} (hj : Joined s) (h : step s (.submit i) = some s') (hst : s.db.turnStatus? t = some st)
    (hst' : s'.db.turnStatus? t = some st') : isActive st' = true ↔ s'.db.Pending t := by
  obtain ⟨db, s₁, heffect, -, rfl⟩ := step_some h
  obtain ⟨x, hx, hok⟩ := effect_submit heffect
  obtain ⟨p, -, rfl⟩ := submitRun_ok hok
  by_cases hturn : x.turnId = t
  · have hassigns : (Action.submit i).assigns s t = some .queued := by simp [Action.assigns, hx, hturn]
    obtain ⟨st'', hst'', hcase⟩ := turnStatus_step h hst
    obtain rfl := Option.some.inj (hst''.symm.trans hst')
    have heq : st'' = .queued := by
      rcases hcase with heq | ⟨hnone, -⟩
      · exact Option.some.inj (heq.symm.trans hassigns)
      · rw [hassigns] at hnone
        cases hnone
    rw [heq]
    refine iff_of_true (by decide) ⟨s.db.runs.length, _, List.getElem?_concat_length, ?_, rfl⟩
    exact congrArg some hturn
  · have hassigns : (Action.submit i).assigns s t = none := by simp [Action.assigns, hx, hturn]
    rw [isActive_turn_step h hj.noneRunning hassigns hst hst', hj.agree t st hst]
    refine (pending_congr h (fun r run _ _ => rfl) ?_).symm
    intro run hnew ht
    cases hnew with
    | @submit _ x' p' hx' =>
      obtain rfl := Option.some.inj (hx.symm.trans hx')
      exact absurd (Option.some.inj ht) hturn

/-- What the commit of an execution at work assigns to its run, it assigns to its turn too. -/
theorem assigns_of_setsRun {st : RunStatus}
    (ht : e.turnId = some t) (hcurrent : e.phase.Current) (h : e.setsRun s x = some st) :
    ∃ target, e.assigns s x t = some target := by
  cases x with
  | completeCommit =>
    cases hp : e.phase with
    | completeFlushed seenTurn =>
      rw [hp] at hcurrent
      have hseen : seenTurn = some .queued := hcurrent
      simp only [Execution.setsRun, hp] at h
      split at h
      · next hc =>
          refine ⟨.succeeded, ?_⟩
          simp [Execution.assigns, ht, hp, hc, hseen, TimelineRunFinalizer.writesTurn]
      · cases h
    | _ => simp [Execution.setsRun, hp] at h
  | failCommit =>
    cases hp : e.phase with
    | failFlushed seenRun seenTurn =>
      rw [hp] at hcurrent
      have hseen : seenRun = some .running ∧ seenTurn = some .queued := hcurrent
      refine ⟨.runFailed, ?_⟩
      simp [Execution.assigns, ht, hp, hseen.2, TimelineRunFinalizer.writesTurn]
    | _ => simp [Execution.setsRun, hp] at h
  | _ => simp [Execution.setsRun] at h

theorem turnId_of_assigns {target : TurnStatus} (h : e.assigns s x t = some target) : e.turnId = some t := by
  unfold Execution.assigns at h
  split at h
  · next ht => exact ht
  · cases h

theorem setsRun_of_assigns {target : TurnStatus} (hcurrent : e.phase.Current) (h : e.assigns s x t = some target) :
    isActive target = false ∧ ∃ st, e.setsRun s x = some st ∧ st.isPending = false := by
  unfold Execution.assigns at h
  split at h
  · split at h
    · next seenTurn hp =>
          split at h
          · next hguard =>
              rw [Bool.and_eq_true] at hguard
              obtain rfl := Option.some.inj h
              exact ⟨rfl, .succeeded, by simp [Execution.setsRun, hp, hguard.2], rfl⟩
          · cases h
    · next seenRun seenTurn hp =>
          rw [hp] at hcurrent
          have hseen : seenRun = some .running ∧ seenTurn = some .queued := hcurrent
          split at h
          · obtain rfl := Option.some.inj h
            refine ⟨rfl, .failed, ?_, rfl⟩
            simp [Execution.setsRun, hp, hseen.1, TimelineRunFinalizer.failsRun]
          · cases h
    · cases h
  · cases h

/-- **A step of an execution** ends its run together with its turn. -/
theorem agree_exec {i : Nat} (hj : Joined s) (h : step s (.exec i x) = some s') (hst : s.db.turnStatus? t = some st)
    (hst' : s'.db.turnStatus? t = some st') : isActive st' = true ↔ s'.db.Pending t := by
  obtain ⟨db, s₁, heffect, hcontrol, -⟩ := step_some h
  obtain ⟨e, he, -⟩ := Option.map_eq_some_iff.mp heffect
  obtain ⟨e', he', hcontrol⟩ := Option.bind_eq_some_iff.mp hcontrol
  obtain rfl := Option.some.inj (he.symm.trans he')
  obtain ⟨phase, hnext, -⟩ := Option.map_eq_some_iff.mp hcontrol
  have hmem := List.mem_of_getElem? he
  have hsets : ∀ r, (Action.exec i x).setsRun s r = if e.run = r then e.setsRun s x else none := by
    intro r
    simp [Action.setsRun, he]
  have hassigns : (Action.exec i x).assigns s t = e.assigns s x t := by simp [Action.assigns, he]
  -- the run an analysis inserts is never pending
  have hnew : ∀ run, NewRun s (.exec i x) run → run.turnId = some t → run.status.isPending = false := by
    intro run hnew _
    cases hnew
    rfl
  cases htarget : e.assigns s x t with
  | none =>
    rw [isActive_turn_step h hj.noneRunning (hassigns.trans htarget) hst hst', hj.agree t st hst]
    refine (pending_congr h ?_ hnew).symm
    intro r run hr ht
    have hnone : (Action.exec i x).setsRun s r = none := by
      rw [hsets]
      split
      · next hrun =>
          cases hval : e.setsRun s x with
          | none => rfl
          | some v =>
            obtain ⟨run', hrun', hturn', -⟩ := hj.execs e hmem
            rw [hrun, hr] at hrun'
            obtain rfl := Option.some.inj hrun'
            have het : e.turnId = some t := hturn'.symm.trans ht
            have hw : e.Works := ⟨works_of_next hnext, by rw [het]; rfl⟩
            obtain ⟨target, htarget'⟩ := assigns_of_setsRun het (hj.working e hmem hw).2 hval
            rw [htarget] at htarget'
            cases htarget'
      · rfl
    simp [Action.onRun, hnone]
  | some target =>
    have hturn := turnId_of_assigns htarget
    have hw : e.Works := ⟨works_of_next hnext, by rw [hturn]; rfl⟩
    obtain ⟨hclosed, v, hval, hended⟩ := setsRun_of_assigns (hj.working e hmem hw).2 htarget
    obtain ⟨st'', hst'', hcase⟩ := turnStatus_step h hst
    obtain rfl := Option.some.inj (hst''.symm.trans hst')
    have heq : target = st'' := by
      rcases hcase with heq | ⟨hnone, -⟩
      · exact Option.some.inj ((hassigns.trans htarget).symm.trans heq)
      · rw [hassigns, htarget] at hnone
        cases hnone
    rw [← heq, hclosed]
    refine iff_of_false (by decide) ?_
    rintro ⟨r, run', hr', ht, hp⟩
    cases hr : s.db.runs[r]? with
    | none =>
      rw [hnew run' (run_new h hr hr').2 ht] at hp
      cases hp
    | some run =>
      rw [run_step h hr] at hr'
      obtain rfl := Option.some.inj hr'
      by_cases hrun : e.run = r
      · have hpend : (((Action.exec i x).setsRun s r).getD run.status).isPending = true := hp
        rw [hsets, if_pos hrun, hval, Option.getD_some, hended] at hpend
        cases hpend
      · -- another pending run of the turn would be a second active run of its workspace
        have hpend : (((Action.exec i x).setsRun s r).getD run.status).isPending = true := hp
        rw [hsets, if_neg hrun, Option.getD_none] at hpend
        obtain ⟨run₀, t₀, ht₀, hrun₀, hturn₀, hrunning₀⟩ := hw.row hj hmem
        obtain rfl := Option.some.inj (hturn.symm.trans ht₀)
        have hws : run₀.workspaceId = run.workspaceId :=
          Option.some.inj ((hj.owned _ run₀ t hrun₀ hturn₀).symm.trans (hj.owned r run t hr ht))
        exact hrun (hj.single _ r run₀ run hrun₀ hr (by rw [hrunning₀]; rfl) (isActive_of_isPending hpend) hws)

/-- **A step that severs nothing keeps turns and runs in agreement.** -/
theorem agree_step (hj : Joined s) (h : step s a = some s') (hns : a.severs s = false) : s'.db.Agree := by
  intro t st' hst'
  cases hst : s.db.turnStatus? t with
  | none => exact agree_new hj h hns hst hst'
  | some st =>
    by_cases hsubmit : ∃ i, a = .submit i
    · obtain ⟨i, rfl⟩ := hsubmit
      exact agree_submit hj h hst hst'
    · by_cases hexec : ∃ i x, a = .exec i x
      · obtain ⟨i, x, rfl⟩ := hexec
        exact agree_exec hj h hst hst'
      · -- the other parties write neither the turn nor, as nothing is severed, a pending run of it
        have hassigns : a.assigns s t = none := by
          cases ha : a.assigns s t with
          | none => rfl
          | some target =>
            rcases Action.assigns_cases ha with ⟨i, _, heq, _⟩ | ⟨i, _, x, heq, _⟩
            · exact absurd ⟨i, heq⟩ hsubmit
            · exact absurd ⟨i, x, heq⟩ hexec
        rw [isActive_turn_step h hj.noneRunning hassigns hst hst', hj.agree t st hst]
        refine (pending_congr h ?_ ?_).symm
        · intro r run hr ht
          exact isPending_onRun h hns (fun i x heq => hexec ⟨i, x, heq⟩) hr ht
        · intro run hnew ht
          cases hnew with
          | submit => exact absurd ⟨_, rfl⟩ hsubmit
          | @submitPlan ws p snapshot t' actor dept _ =>
            have hnone : t'.isSome = false := hns
            have ht' : t' = some t := ht
            rw [ht'] at hnone
            cases hnone
          | analyze => exact absurd ⟨_, _, rfl⟩ hexec

/-- **The invariant survives every step that severs nothing.** -/
theorem joined_step (hj : Joined s) (h : step s a = some s') (hns : a.severs s = false) : Joined s' where
  noneRunning := noneRunning_step h hj.noneRunning
  execs := execsSound_step h hj.execs
  agree := agree_step hj h hns
  owned := by
    intro r run t hr ht
    exact turnWorkspace?_step h (turn_of_run_step hj h hns hr ht)
  single := single_step hj h
  submits := submits_joined hj h
  working := (execs_joined hj h hns).1
  alone := (execs_joined hj h hns).2

end Steps

/-! ## Runs -/

/-- **Turns and runs agree as long as no step severs them.** In every run of the system in which no step takes a
pending run of a turn out of `queued` and `running` without its turn (a cancellation, the reconciler, the
heartbeat and the legacy orchestrator do) and none submits a run for a turn past the turn, in every state without
an open transaction of the finalizer a turn is `queued` or `running` if and only if it has a run that is. -/
theorem agree_of_not_severed (acts : List Action)
    (hns : ∀ u ∈ play step init acts, u.act.severs u.pre = false) :
    ∀ u ∈ play step init acts, u.post.Settled → u.post.db.Agree := by
  have hrun : Run step init _ _ := play_run init acts
  have hjoined := hrun.invariant joined_init (fun u hu hj => joined_step hj (hrun.step_of_mem hu) (hns u hu))
  intro u hu _
  exact (hjoined u hu).2.agree

/-- The run that succeeds without interference. -/
theorem agree_finishedRun : ∃ u ∈ play step init finishedRun, u.post.Settled ∧ u.post.db.Agree := by
  have hended : ∃ u ∈ play step init finishedRun, u.post.execs.length = 1 ∧ ∀ e ∈ u.post.execs, e.phase = .done := by
    rw [finishedRun, play_claimedRun]
    decide +kernel
  obtain ⟨u, hu, -, hdone⟩ := hended
  have hsettled : u.post.Settled := fun e he => .inr (.inr (.inr (hdone e he)))
  have hjoined : ∀ u ∈ play step init finishedRun, u.act.severs u.pre = false := by
    rw [finishedRun, play_claimedRun]
    decide +kernel
  exact ⟨u, hu, hsettled, agree_of_not_severed finishedRun hjoined u hu hsettled⟩

/-- A user cancels the run while it is in the queue. -/
def cancelledInQueue : List Action := confirmedTurn ++ [.checkSubmit 0 0 0 0, .submit 0, .checkCancel 0, .cancel 0]

/-- Turns and runs do not agree in general: the turn of a cancelled run stays `queued`. -/
theorem not_agree : ¬ ∀ acts : List Action, ∀ u ∈ play step init acts, u.post.Settled → u.post.db.Agree := by
  intro h
  have hleft : ∃ u ∈ play step init cancelledInQueue, u.post.execs.length = 0 ∧
      u.post.db.turnStatus? 0 = some .queued ∧
      (u.post.db.runs.any fun run => run.status.isPending) = false := by
    rw [cancelledInQueue, play_confirmedTurn]
    decide +kernel
  obtain ⟨u, hu, hempty, hturn, hnone⟩ := hleft
  have hsettled : u.post.Settled := by
    intro e he
    rw [List.length_eq_zero_iff.mp hempty] at he
    exact absurd he List.not_mem_nil
  obtain ⟨r, run, hr, -, hp⟩ := (h cancelledInQueue u hu hsettled 0 .queued hturn).mp (by decide)
  have hall := List.any_eq_false.mp hnone run (List.mem_of_getElem? hr)
  exact hall hp

end Irip.Research
