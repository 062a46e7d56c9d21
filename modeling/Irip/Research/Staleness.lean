import Irip.Research.Items

/-!
# `Research.Staleness` — which running work the reconciler fails

A pass of the reconciler takes every row that was submitted or created more than ten minutes ago, whatever time of
it the row has spent in the queue, and fails those that are `running`.
-/

namespace Irip.Research

open Runs

/-! ## Clocks -/

/-- Since when a row has been `running`, `none` while it is not. -/
structure Clocks where
  runs : RunId → Option Time
  jobs : ExtractionId → Option Time

/-- Before the first call nothing is running. -/
def Clocks.start : Clocks where
  runs _ := none
  jobs _ := none

/-- The clocks after a transition: a row that has become `running` has been so since the transition. -/
def Clocks.after (c : Clocks) (u : Transition Sys Action) : Clocks where
  runs r :=
    if u.post.db.runStatus? r = some .running then
      if u.pre.db.runStatus? r = some .running then c.runs r else some u.pre.now
    else none
  jobs j :=
    if u.post.db.extractionStatus? j = some .running then
      if u.pre.db.extractionStatus? j = some .running then c.jobs j else some u.pre.now
    else none

/-- The columns of the rows tell the clocks. -/
structure Clocks.Told (c : Clocks) (s : Sys) : Prop where
  noneRunning : NoneRunning s
  runs : ∀ r, c.runs r = s.db.runs[r]?.bind (fun run => if run.status = .running then run.startedAt else none)
  jobs : ∀ j, c.jobs j = s.db.extractions[j]?.bind (fun job => if job.status = .running then some job.updatedAt else none)

section Steps

variable {s s' : Sys} {a : Action} {c : Clocks}

theorem told_start : Clocks.start.Told init := by
  refine ⟨noneRunning_init, ?_, ?_⟩
  · intro r
    rfl
  · intro j
    rfl

theorem told_runs (htold : c.Told s) (h : step s a = some s') (r : RunId) :
    (c.after ⟨s, a, s'⟩).runs r
      = s'.db.runs[r]?.bind (fun run => if run.status = .running then run.startedAt else none) := by
  show (if s'.db.runStatus? r = some .running then _ else _) = _
  cases hr : s.db.runs[r]? with
  | none =>
    cases hr' : s'.db.runs[r]? with
    | none => simp [Db.runStatus?, hr']
    | some run =>
      -- no run is inserted as `running`
      have hnot : run.status ≠ .running := by
        intro heq
        obtain ⟨-, hnew⟩ := run_new h hr hr'
        cases hnew <;> cases heq
      simp [Db.runStatus?, hr', hnot]
  | some run =>
    have hst : s.db.runStatus? r = some run.status := by simp [Db.runStatus?, hr]
    have hr' := run_step h hr
    have hst' := runStatus_step h hst
    have hold := htold.runs r
    rw [hr, Option.bind_some] at hold
    rw [hr', Option.bind_some, hst', hst]
    show _ = if (a.setsRun s r).getD run.status = .running then
      (if a.claims s r then some s.now else run.startedAt) else none
    by_cases hrunning : run.status = .running
    · have hclaims : a.claims s r = false := by
        cases a with
        | claim m => simp [Action.claims, hst, hrunning]
        | _ => rfl
      rw [if_pos hrunning] at hold
      simp [hrunning, hclaims, hold]
    · cases hsets : a.setsRun s r with
      | none => simp [hrunning]
      | some st =>
        rcases setsRun_cases h hsets with ⟨rfl, -, hclaims⟩ | hinactive
        · simp [hrunning, hclaims]
        · have hnot : st ≠ .running := by
            intro heq
            rw [heq] at hinactive
            cases hinactive
          simp [hnot]

theorem queued_of_setsExtraction {j : ExtractionId} (h : a.setsExtraction s j = some .running) :
    s.db.extractionStatus? j = some .queued := by
  cases a with
  | request q =>
    cases q with
    | retryExtraction j' =>
      simp only [Action.setsExtraction] at h
      split at h
      · cases h
      · cases h
    | _ => cases h
  | claimExtraction m =>
    simp only [Action.setsExtraction] at h
    split at h
    · next hguard => exact hguard.2
    · cases h
  | endExtraction i ok =>
    simp only [Action.setsExtraction] at h
    split at h
    · cases ok <;> cases h
    · cases h
  | reconcile clock rs js =>
    simp only [Action.setsExtraction] at h
    split at h
    · cases h
    · cases h
  | _ => cases h

theorem told_jobs (htold : c.Told s) (h : step s a = some s') (j : ExtractionId) :
    (c.after ⟨s, a, s'⟩).jobs j
      = s'.db.extractions[j]?.bind (fun job => if job.status = .running then some job.updatedAt else none) := by
  show (if s'.db.extractionStatus? j = some .running then _ else _) = _
  cases hj : s.db.extractions[j]? with
  | none =>
    cases hj' : s'.db.extractions[j]? with
    | none => simp [Db.extractionStatus?, hj']
    | some job =>
      have hnot : job.status ≠ .running := by
        intro heq
        obtain ⟨-, hnew⟩ := extraction_new htold.noneRunning h hj hj'
        cases hnew <;> cases heq
      simp [Db.extractionStatus?, hj', hnot]
  | some job =>
    have hst : s.db.extractionStatus? j = some job.status := by simp [Db.extractionStatus?, hj]
    obtain ⟨job', hj', hafter⟩ := extraction_step htold.noneRunning h hj
    have hst' : s'.db.extractionStatus? j = some job'.status := by simp [Db.extractionStatus?, hj']
    have hold := htold.jobs j
    rw [hj, Option.bind_some] at hold
    rw [hj', Option.bind_some, hst', hst]
    cases hsets : a.setsExtraction s j with
    | none =>
      rw [hafter.same hsets]
      by_cases hrunning : job.status = .running
      · rw [if_pos hrunning] at hold
        simp [hrunning, hold]
      · simp [hrunning]
    | some st =>
      have hstatus : job'.status = st := by rw [hafter.status, hsets]; rfl
      by_cases heq : st = .running
      · subst heq
        have hqueued := queued_of_setsExtraction hsets
        rw [hst] at hqueued
        have hnot : job.status ≠ .running := by
          rw [Option.some.inj hqueued]
          decide
        simp [hstatus, hnot, hafter.updated hsets]
      · simp [hstatus, heq]

theorem told_step (htold : c.Told s) (h : step s a = some s') : (c.after ⟨s, a, s'⟩).Told s' where
  noneRunning := noneRunning_step h htold.noneRunning
  runs := told_runs htold h
  jobs := told_jobs htold h

end Steps

/-! ## Passes -/

/-- The rows a pass fails have all been running for longer than the threshold. -/
def PassFailsStale (c : Clocks) (db : Db) (clock : Time) (rs : List RunId) (js : List ExtractionId) : Prop :=
  (∀ r ∈ rs, db.runStatus? r = some .running → ∃ since ∈ c.runs r, since < clock - staleAfter) ∧
    ∀ j ∈ js, db.extractionStatus? j = some .running → ∃ since ∈ c.jobs j, since < clock - staleAfter

instance (c : Clocks) (db : Db) (clock : Time) (rs : List RunId) (js : List ExtractionId) :
    Decidable (PassFailsStale c db clock rs js) := by
  unfold PassFailsStale
  infer_instance

/-- If the transition is a pass of the reconciler, it fails stale rows only. -/
def FailsStale (c : Clocks) (u : Transition Sys Action) : Prop :=
  match u.act with
  | .reconcile clock rs js => PassFailsStale c u.pre.db clock rs js
  | _ => True

instance (c : Clocks) (u : Transition Sys Action) : Decidable (FailsStale c u) := by
  obtain ⟨pre, act, post⟩ := u
  cases act with
  | reconcile clock rs js => exact inferInstanceAs (Decidable (PassFailsStale c pre.db clock rs js))
  | _ => exact .isTrue trivial

/-- The step is a pass of the reconciler that has selected a running row claimed within the threshold: the row has
waited in the queue since before it. -/
def Action.overtakes (s : Sys) (a : Action) : Bool :=
  match a with
  | .reconcile clock rs js =>
    rs.any (fun r => s.db.runs[r]?.any (fun run =>
      run.status == .running && run.startedAt.all (fun claimed => clock - staleAfter ≤ claimed))) ||
    js.any (fun j => s.db.extractions[j]?.any (fun job =>
      job.status == .running && decide (clock - staleAfter ≤ job.updatedAt)))
  | _ => false

/-- Where the rows tell the clocks, a pass fails stale rows only unless it overtakes a claim. -/
theorem passFailsStale_iff {s : Sys} {c : Clocks} {clock : Time} {rs : List RunId} {js : List ExtractionId}
    (htold : c.Told s) :
    PassFailsStale c s.db clock rs js ↔ (Action.reconcile clock rs js).overtakes s = false := by
  unfold PassFailsStale Action.overtakes
  rw [Bool.or_eq_false_iff, List.any_eq_false, List.any_eq_false]
  apply and_congr
  · apply forall₂_congr
    intro r _
    rw [htold.runs r]
    cases hr : s.db.runs[r]? with
    | none => simp [Db.runStatus?, hr]
    | some run =>
      by_cases hrunning : run.status = .running
      · cases hstarted : run.startedAt with
        | none => simp [Db.runStatus?, hr, hrunning, hstarted]
        | some claimed => simp [Db.runStatus?, hr, hrunning, hstarted, Int.lt_sub_right_iff_add_lt]
      · simp [Db.runStatus?, hr, hrunning]
  · apply forall₂_congr
    intro j _
    rw [htold.jobs j]
    cases hj : s.db.extractions[j]? with
    | none => simp [Db.extractionStatus?, hj]
    | some job =>
      by_cases hrunning : job.status = .running
      · simp [Db.extractionStatus?, hj, hrunning, Int.lt_sub_right_iff_add_lt]
      · simp [Db.extractionStatus?, hj, hrunning]

/-! ## Runs -/

/-- **The reconciler fails stale work only exactly in the runs in which no pass overtakes a claim.** For every
history, every run and every extraction job a pass fails has been `running` for longer than the threshold if and
only if no pass selects a running row that was claimed less than the threshold before the pass, having been
submitted or created earlier than that. -/
theorem failsStale_iff (acts : List Action) :
    Annotated Clocks.after FailsStale Clocks.start (play step init acts) ↔
      ∀ u ∈ play step init acts, u.act.overtakes u.pre = false := by
  have hrun : Run step init _ _ := play_run init acts
  refine hrun.annotated_iff (R := Clocks.Told) (fun h htold => ⟨?_, fun _ => told_step htold h⟩) told_start
  next c s a s' =>
    cases a with
    | reconcile clock rs js => exact passFailsStale_iff htold
    | _ => exact iff_of_true trivial rfl

/-- A run has waited in the queue for eleven minutes when a worker claims it; a second later the reconciler comes. -/
def overtakenRun : List Action :=
  confirmedTurn ++ [.checkSubmit 0 0 0 0, .submit 0, .tick 660000000, .dispatch 2 true, .claim 0, .tick 1000000,
    .reconcile 661000000 [0] []]

/-- The reconciler does not fail stale work only: the run it fails has been running for one second. -/
theorem not_failsStale : ¬ ∀ acts : List Action,
    Annotated Clocks.after FailsStale Clocks.start (play step init acts) := by
  intro h
  have hstale := h overtakenRun
  rw [overtakenRun, play_confirmedTurn] at hstale
  have hclaimed : _ = playSent planning (confirmedTurn.drop 5 ++ [.checkSubmit 0 0 0 0, .submit 0, .tick 660000000]) 2
      .runRequested [.claim 0, .tick 1000000, .reconcile 661000000 [0] []] := play_delivery (step_dispatch 2) rfl rfl _
  simp only [List.append_assoc, List.cons_append, List.nil_append] at hclaimed
  rw [hclaimed] at hstale
  revert hstale
  decide +kernel

end Irip.Research
