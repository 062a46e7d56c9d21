import Irip.Research.Turns

/-!
# `Research.Cancelled` — when a cancelled run stays cancelled

`cancel_run` commits `cancelled` while a worker may be anywhere between its claim and the commit of its finalizer.
`complete` refuses a run it reads as `cancelled` by raising, and the worker's handler answers every exception with
`fail`, which spares `succeeded` and `failed` only. The heartbeat and the legacy orchestrator write by primary key.
-/

namespace Irip.Research

open Runs

/-! ## Overriding -/

/-- The step undoes the cancellation of the run: a finalizer commits what it decided to write before it could see
the cancellation or although it saw it, or a party writes the row without having a look at its status. -/
def Action.Overrides (s : Sys) (a : Action) (r : RunId) : Prop :=
  match a with
  | .exec i .completeCommit =>
    ∃ e ∈ s.execs[i]?, e.run = r ∧ (∃ seenTurn, e.phase = .completeFlushed seenTurn) ∧ e.completes s.db = true
  | .exec i .failCommit =>
    ∃ e ∈ s.execs[i]?, e.run = r ∧ ∃ seenRun seenTurn, e.phase = .failFlushed seenRun seenTurn ∧
      (TimelineRunFinalizer.failsRun seenRun = true ∨
        TimelineRunFinalizer.writesTurn seenTurn = true ∧
          ∃ t ∈ e.turnId, ∃ st ∈ s.db.turnStatus? t, st ≠ .runFailed)
  | .expireHeartbeat r' => r' = r
  | .legacyFinish i _ => s.legacies[i]? = some r
  | _ => False

/-- The step is one of the run's execution or of the orchestrator's call for it. -/
def Action.OfRun (s : Sys) (a : Action) (r : RunId) : Prop :=
  match a with
  | .exec i _ => (s.execs[i]?.map Execution.run) = some r
  | .request (.completeRunForTurn r' _) => r' = r
  | _ => False

/-- The run moves its turn to `succeeded` or to `run_failed`. -/
def ClosesTurnOf (r : RunId) (u : Transition Sys Action) : Prop :=
  u.act.OfRun u.pre r ∧ ∃ run ∈ u.pre.db.runs[r]?, ∃ t ∈ run.turnId, ∃ st ∈ u.post.db.turnStatus? t,
    (st = .succeeded ∨ st = .runFailed) ∧ u.pre.db.turnStatus? t ≠ some st

section Steps

variable {s s' : Sys} {a : Action} {r : RunId}

theorem running_of_cas {st st' : TurnStatus} (h : (st, st') ∈ casMoves)
    (hclosed : st' = .succeeded ∨ st' = .runFailed) : st = .running := by
  revert h
  rcases hclosed with rfl | rfl
  · cases st <;> decide
  · cases st <;> decide

theorem undone_of_overrides (hexecs : ExecsSound s) (h : step s a = some s')
    (hc : s.db.runStatus? r = some .cancelled) (ho : a.Overrides s r) :
    s'.db.runStatus? r ≠ some .cancelled ∨ ClosesTurnOf r ⟨s, a, s'⟩ := by
  have hstatus := runStatus_step h hc
  -- a step that writes another status
  have hwrites : ∀ target, a.setsRun s r = some target → target ≠ .cancelled →
      s'.db.runStatus? r ≠ some .cancelled := by
    intro target hsets hne hcancelled
    rw [hstatus, hsets] at hcancelled
    exact hne (Option.some.inj hcancelled)
  cases a with
  | exec i x =>
    cases x with
    | completeCommit =>
      obtain ⟨e, he, hrun, ⟨seenTurn, hphase⟩, hcompletes⟩ := ho
      have hrow : s.execs[i]? = some e := he
      exact .inl (hwrites .succeeded
        (by simp [Action.setsRun, hrow, hrun, Execution.setsRun, hphase, hcompletes]) (by decide))
    | failCommit =>
      obtain ⟨e, he, hrun, seenRun, seenTurn, hphase, hfails | ⟨hturn, t, ht, st, hst, hne⟩⟩ := ho
      · have hrow : s.execs[i]? = some e := he
        exact .inl (hwrites .failed
          (by simp [Action.setsRun, hrow, hrun, Execution.setsRun, hphase, hfails]) (by decide))
      · -- `fail` spares the run, and writes the turn all the same
        have hrow : s.execs[i]? = some e := he
        have het : e.turnId = some t := ht
        have hassigns : (Action.exec i .failCommit).assigns s t = some .runFailed := by
          simp [Action.assigns, hrow, Execution.assigns, het, hphase, hturn]
        obtain ⟨st', hst', hcase⟩ := turnStatus_step h hst
        have heq : st' = .runFailed := by
          rcases hcase with heq | ⟨hnone, -⟩
          · exact Option.some.inj (heq.symm.trans hassigns)
          · rw [hassigns] at hnone
            cases hnone
        subst heq
        obtain ⟨run, hrunrow, hrunturn, -⟩ := hexecs e (List.mem_of_getElem? hrow)
        refine .inr ⟨by simp [Action.OfRun, hrow, hrun], run, ?_, t, ?_, .runFailed, hst', .inr rfl, ?_⟩
        · rw [← hrun]
          exact hrunrow
        · rw [hrunturn]
          exact het
        · intro hpre
          rw [hst] at hpre
          exact hne (Option.some.inj hpre)
    | _ => exact absurd ho id
  | expireHeartbeat r' =>
    obtain rfl : r' = r := ho
    exact .inl (hwrites .failed (by simp [Action.setsRun]) (by decide))
  | legacyFinish i status =>
    have hlegacy : s.legacies[i]? = some r := ho
    obtain ⟨db, s₁, heffect, -, -⟩ := step_some h
    obtain ⟨r', -, -, hmem, -⟩ := effect_legacyFinish heffect
    refine .inl (hwrites status (by simp [Action.setsRun, hlegacy]) ?_)
    intro heq
    rw [heq] at hmem
    exact absurd hmem (by decide)
  | _ => exact absurd ho id

/-- Of the steps that write a cancelled run those that do not override it write `cancelled` again. -/
theorem setsRun_of_not_overrides (hc : s.db.runStatus? r = some .cancelled) (ho : ¬ a.Overrides s r) :
    (a.setsRun s r).getD .cancelled = .cancelled := by
  cases a with
  | cancel i =>
    simp only [Action.setsRun]
    split <;> rfl
  | claim m => simp [Action.setsRun, Action.claims, hc]
  | exec i x =>
    cases he : s.execs[i]? with
    | none => simp [Action.setsRun, he]
    | some e =>
      by_cases hrun : e.run = r
      · cases x with
        | completeCommit =>
          cases hphase : e.phase with
          | completeFlushed seenTurn =>
            have hcompletes : e.completes s.db = false := by
              by_contra hne
              apply ho
              exact ⟨e, he, hrun, ⟨seenTurn, hphase⟩, by simpa using hne⟩
            simp [Action.setsRun, he, Execution.setsRun, hphase, hcompletes]
          | _ => simp [Action.setsRun, he, Execution.setsRun, hphase]
        | failCommit =>
          cases hphase : e.phase with
          | failFlushed seenRun seenTurn =>
            have hfails : TimelineRunFinalizer.failsRun seenRun = false := by
              by_contra hne
              apply ho
              exact ⟨e, he, hrun, seenRun, seenTurn, hphase, .inl (by simpa using hne)⟩
            simp [Action.setsRun, he, Execution.setsRun, hphase, hfails]
          | _ => simp [Action.setsRun, he, Execution.setsRun, hphase]
        | _ => simp [Action.setsRun, he, Execution.setsRun]
      · simp [Action.setsRun, he, hrun]
  | reconcile clock rs js => simp [Action.setsRun, hc]
  | expireHeartbeat r' =>
    have hne : ¬ r = r' := fun heq => ho heq.symm
    simp [Action.setsRun, hne]
  | legacyFinish i status =>
    have hne : ¬ s.legacies[i]? = some r := ho
    simp [Action.setsRun, hne]
  | orchestratorCancel r' =>
    simp only [Action.setsRun]
    split <;> rfl
  | _ => rfl

theorem not_closesTurnOf (hnone : NoneRunning s) (h : step s a = some s')
    (ho : ¬ a.Overrides s r) : ¬ ClosesTurnOf r ⟨s, a, s'⟩ := by
  rintro ⟨hof, run, hrun, t, ht, st', hst', hclosed, hpre⟩
  have hpost : s'.db.turnStatus? t = some st' := hst'
  cases hst : s.db.turnStatus? t with
  | none =>
    rw [turnStatus_new h hst hpost] at hclosed
    rcases hclosed with heq | heq
    · cases heq
    · cases heq
  | some st =>
    have hmoved : st ≠ st' := by
      intro heq
      exact hpre (heq ▸ hst)
    obtain ⟨st'', hst'', hcase⟩ := turnStatus_step h hst
    obtain rfl := Option.some.inj (hst''.symm.trans hpost)
    rcases hcase with hassigns | ⟨-, heq | ⟨hmove, -⟩⟩
    · rcases Action.assigns_cases hassigns with ⟨i, x, rfl, -, -, -⟩ | ⟨i, e, x, rfl, he, hexec, -⟩
      · exact absurd hof id
      · have hrow : e.run = r := by simpa [Action.OfRun, he] using hof
        unfold Execution.assigns at hexec
        split at hexec
        · next heturn =>
            split at hexec
            · next seenTurn hphase =>
                split at hexec
                · next hguard =>
                    rw [Bool.and_eq_true] at hguard
                    exact ho ⟨e, he, hrow, ⟨seenTurn, hphase⟩, hguard.2⟩
                · cases hexec
            · next seenRun seenTurn hphase =>
                split at hexec
                · next hguard =>
                    obtain rfl := Option.some.inj hexec
                    exact ho ⟨e, he, hrow, seenRun, seenTurn, hphase, .inr ⟨hguard, t, heturn, st, hst, hmoved⟩⟩
                · cases hexec
            · cases hexec
        · cases hexec
    · exact hmoved heq.symm
    · have hrunning := running_of_cas hmove hclosed
      exact hnone t (hrunning ▸ hst)

end Steps

/-! ## Runs -/

/-- Once its status is `cancelled` the run keeps it, and does not close its turn. -/
def StaysCancelled (r : RunId) (ts : List (Transition Sys Action)) : Prop :=
  Since (fun u => u.pre.db.runStatus? r = some .cancelled)
    (fun u => u.post.db.runStatus? r = some .cancelled ∧ ¬ ClosesTurnOf r u) ts

/-- **A cancelled run stays cancelled exactly in the runs of the system in which no step overrides it.** For any
interleaving of the parties, the status `cancelled` of a run is never left and its turn never closed by the run
if and only if, wherever the run is cancelled, no finalizer of one of its executions commits a `complete` that
goes through or a `fail` that has read the run as neither `succeeded` nor `failed` or its turn as neither
`succeeded` nor `run_failed` (unless the turn is `run_failed` by then), and neither the heartbeat nor the legacy
orchestrator writes the run. -/
theorem staysCancelled_iff (acts : List Action) (r : RunId) :
    StaysCancelled r (play step init acts) ↔
      ∀ u ∈ play step init acts, u.pre.db.runStatus? r = some .cancelled → ¬ u.act.Overrides u.pre r := by
  have hrun : Run step init _ _ := play_run init acts
  have hnone := hrun.invariant_of_step (I := NoneRunning) noneRunning_step noneRunning_init
  have hexecs := hrun.invariant_of_step (I := ExecsSound) execsSound_step execsSound_init
  constructor
  · intro h u hu hc ho
    obtain ⟨hkept, hopen⟩ := h.at u hu hc
    rcases undone_of_overrides (hexecs u hu).1 (hrun.step_of_mem hu) hc ho with hlost | hclosed
    · exact hlost hkept
    · exact hopen hclosed
  · intro h
    apply hrun.since (J := fun s => s.db.runStatus? r = some .cancelled)
    · intro u _ hc
      exact hc
    · intro u hu hc
      have hstep := hrun.step_of_mem hu
      have ho := h u hu hc
      have hkept : u.post.db.runStatus? r = some .cancelled := by
        rw [runStatus_step hstep hc, setsRun_of_not_overrides hc ho]
      exact ⟨hkept, hkept, not_closesTurnOf (hnone u hu).1 hstep ho⟩

/-- The user cancels while the model is at work: `complete` raises, and the handler calls `fail`. -/
def cancelledAnalysis : List Action :=
  claimedRun ++ [.checkCancel 0, .cancel 0, .exec 0 (.analyze 1), .exec 0 .completeRead, .exec 0 .failRead,
    .exec 0 .failFlush, .exec 0 .failCommit]

/-- A cancelled run does not stay cancelled in general: it ends as `failed`. -/
theorem cancelled_lost : ¬ ∀ (acts : List Action) (r : RunId), StaysCancelled r (play step init acts) := by
  intro h
  have hlost : ∃ u ∈ play step init cancelledAnalysis, u.pre.db.runStatus? 0 = some .cancelled ∧
      u.post.db.runStatus? 0 = some .failed := by
    rw [cancelledAnalysis, play_claimedRun]
    decide +kernel
  obtain ⟨u, hu, hpre, hpost⟩ := hlost
  have hkept := ((h cancelledAnalysis 0).at u hu hpre).1
  rw [hpost] at hkept
  cases hkept

end Irip.Research
