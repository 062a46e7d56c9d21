import Irip.Research.Cancelled
import Irip.Research.Items

/-!
# `Research.Submissions` — the rows and the output of a submission

A submission inserts the row of the attempt, a worker claims it and the finalizer ends it. In between,
`analyze_data` inserts a row of its own, `succeeded` and with publishable artifacts, in a transaction that the end
of the submitted run does not take back.
-/

namespace Irip.Research

open Runs

/-! ## Submissions -/

/-- The turn a step submits a run for. -/
def Action.submits (s : Sys) : Action → Option TurnId
  | .submit i => s.submits[i]?.map Submit.turnId
  | .request (.submitRun _ _ _ t _ _) => t
  | _ => none

/-- The submissions for turns, oldest first, each with the run it has inserted. -/
def record (g : List (TurnId × RunId)) (u : Transition Sys Action) : List (TurnId × RunId) :=
  g ++ ((u.act.submits u.pre).map (fun t => (t, u.pre.db.runs.length))).toList

/-- The runs submitted for the turn. -/
def runsSubmitted (g : List (TurnId × RunId)) (t : TurnId) : List RunId :=
  (g.filter (fun p => p.1 = t)).map Prod.snd

/-- The keys of the rows of the turn's runs. -/
def Db.runIds (db : Db) (t : TurnId) : List RunId :=
  (db.runs.zipIdx.filter (fun p => p.1.turnId = some t)).map Prod.snd

/-- The run has succeeded, or has an artifact that can be published. -/
def Db.HasOutput (db : Db) (r : RunId) : Prop :=
  db.runStatus? r = some .succeeded ∨ ∃ x ∈ db.artifacts, x.runId = r ∧ x.isPublishable = true

instance (db : Db) (r : RunId) : Decidable (db.HasOutput r) := by
  unfold Db.HasOutput
  infer_instance

/-- The rows of every turn are those of its submissions, numbered from 1 on in their order, and output is that of a
submitted run that has succeeded. -/
structure Accounted (g : List (TurnId × RunId)) (db : Db) : Prop where
  rows : ∀ t, db.runIds t = runsSubmitted g t
  attempts : ∀ t, (db.runsOfTurn t).map AnalysisRun.attemptNumber = List.range' 1 (runsSubmitted g t).length
  output : ∀ t, ∀ r ∈ db.runIds t, db.HasOutput r →
    r ∈ runsSubmitted g t ∧ db.runStatus? r = some .succeeded

/-! ## Rows -/

/-- The turn of the run a step inserts. -/
def Action.inserts (s : Sys) : Action → Option (Option TurnId)
  | .submit i => s.submits[i]?.map (fun x => some x.turnId)
  | .request (.submitRun _ _ _ t _ _) => some t
  | .exec i (.analyze _) => s.execs[i]?.map Execution.turnId
  | _ => none

/-- The step is the commit of `analyze_data` for a run of a turn. -/
def Action.analyzesTurn (s : Sys) : Action → Bool
  | .exec i (.analyze _) => (s.execs[i]?.bind Execution.turnId).isSome
  | _ => false

/-- The columns of the runs that no step rewrites. -/
def Db.owners (db : Db) : List (Option TurnId × Nat) :=
  db.runs.map (fun run => (run.turnId, run.attemptNumber))

section Rows

variable {s s' : Sys} {a : Action} {t : TurnId}

theorem runIds_eq (db : Db) (t : TurnId) :
    db.runIds t = (db.owners.zipIdx.filter (fun p => p.1.1 = some t)).map Prod.snd := by
  unfold Db.runIds Db.owners
  rw [List.zipIdx_map, List.filter_map, List.map_map]
  rfl

theorem attempts_eq (db : Db) (t : TurnId) :
    (db.runsOfTurn t).map AnalysisRun.attemptNumber = (db.owners.filter (fun o => o.1 = some t)).map Prod.snd := by
  unfold Db.runsOfTurn Db.owners
  rw [List.filter_map, List.map_map]
  rfl

theorem length_runIds (db : Db) (t : TurnId) : (db.runIds t).length = (db.runsOfTurn t).length := by
  have hruns : db.runsOfTurn t = (db.runs.zipIdx.filter (fun p => p.1.turnId = some t)).map Prod.fst := by
    unfold Db.runsOfTurn
    conv_lhs => rw [← List.zipIdx_map_fst 0 db.runs]
    rw [List.filter_map]
    rfl
  rw [hruns, Db.runIds, List.length_map, List.length_map]

theorem owners_update {db db' : Db} {rs : List RunId} {u : Table.Update AnalysisRun}
    (hset : ∀ run, (u.set run).turnId = run.turnId ∧ (u.set run).attemptNumber = run.attemptNumber)
    (hdb : db'.runs = Table.update db.runs rs u) : db'.owners = db.owners := by
  unfold Db.owners
  rw [hdb]
  apply List.ext_getElem?
  intro r
  rw [List.getElem?_map, List.getElem?_map, Table.getElem?_update, Option.map_map]
  congr 1
  funext run
  rcases u.apply_cases run with ⟨-, happly⟩ | ⟨-, happly⟩
  · obtain ⟨hturn, hattempt⟩ := hset run
    by_cases hr : r ∈ rs
    · simp [hr, happly, hturn, hattempt]
    · simp [hr]
  · simp [happly]

theorem owners_keep {db : Db} (h : s.effect a = some db) (hno : ∀ run, ¬ NewRun s a run) : db.owners = s.db.owners := by
  have hafter := runs_effect h
  generalize hdb : db.runs = runs at hafter
  cases hafter with
  | same =>
    unfold Db.owners
    rw [hdb]
  | assigned r target | claimed msg | reconciled => exact owners_update (fun _ => ⟨rfl, rfl⟩) hdb
  | inserted run _ _ hnew => exact absurd hnew (hno run)

/-- **The owners after a step.** -/
theorem owners_effect {db : Db} (h : s.effect a = some db) :
    db.owners = s.db.owners ++ ((a.inserts s).map (fun t => (t, (t.map s.db.nextAttempt).getD 1))).toList := by
  cases a with
  | submit i =>
    obtain ⟨x, hx, h⟩ := effect_submit h
    obtain ⟨p, -, rfl⟩ := submitRun_ok h
    simp only [Action.inserts, hx, Option.map_some, Option.toList_some]
    exact List.map_append
  | request q =>
    cases q with
    | submitRun ws p snapshot t actor dept =>
      obtain ⟨-, rfl⟩ := submitPlanRun_ok (Evaluation.ok_of_toOption h)
      exact List.map_append
    | _ =>
      refine (owners_keep h (fun run hnew => ?_)).trans (List.append_nil _).symm
      cases hnew
  | exec i x =>
    cases x with
    | analyze blocks =>
      obtain ⟨e, he, rfl⟩ := Option.map_eq_some_iff.mp h
      simp only [Action.inserts, he, Option.map_some, Option.toList_some]
      exact List.map_append
    | _ =>
      refine (owners_keep h (fun run hnew => ?_)).trans (List.append_nil _).symm
      cases hnew
  | _ =>
    refine (owners_keep h (fun run hnew => ?_)).trans (List.append_nil _).symm
    cases hnew

theorem runIds_step (h : step s a = some s') :
    s'.db.runIds t = s.db.runIds t ++ if a.inserts s = some (some t) then [s.db.runs.length] else [] := by
  obtain ⟨db, s₁, heffect, -, rfl⟩ := step_some h
  show db.runIds t = _
  have hlength : s.db.owners.length = s.db.runs.length := List.length_map _
  rw [runIds_eq, runIds_eq, owners_effect heffect]
  cases hin : a.inserts s with
  | none => simp
  | some turn =>
    by_cases hturn : turn = some t
    · simp [hturn, List.zipIdx_append, hlength]
    · simp [hturn, List.zipIdx_append]

theorem attempts_step (h : step s a = some s') :
    (s'.db.runsOfTurn t).map AnalysisRun.attemptNumber = (s.db.runsOfTurn t).map AnalysisRun.attemptNumber ++
      if a.inserts s = some (some t) then [s.db.nextAttempt t] else [] := by
  obtain ⟨db, s₁, heffect, -, rfl⟩ := step_some h
  show (db.runsOfTurn t).map _ = _
  rw [attempts_eq, attempts_eq, owners_effect heffect]
  cases hin : a.inserts s with
  | none => simp
  | some turn =>
    by_cases hturn : turn = some t
    · simp [hturn]
    · simp [hturn]

/-- **The attempts of a turn are numbered from 1 on**, whoever has inserted them. -/
theorem attempts_numbered (h : step s a = some s')
    (hpre : (s.db.runsOfTurn t).map AnalysisRun.attemptNumber = List.range' 1 (s.db.runsOfTurn t).length) :
    (s'.db.runsOfTurn t).map AnalysisRun.attemptNumber = List.range' 1 (s'.db.runsOfTurn t).length := by
  have hattempts := attempts_step (t := t) h
  have hlength : (s'.db.runsOfTurn t).length
      = ((s'.db.runsOfTurn t).map AnalysisRun.attemptNumber).length := (List.length_map _).symm
  rw [hlength, hattempts, hpre]
  by_cases hin : a.inserts s = some (some t)
  · rw [if_pos hin, List.length_append, List.length_range', List.length_singleton, List.range'_concat]
    simp [Db.nextAttempt, Nat.add_comm]
  · rw [if_neg hin, List.append_nil, List.length_range']

/-- The artifacts after a step: those from before, each of its run as before, and those of an analysis or of an
extraction. -/
theorem artifact_step {x : RunArtifact} (h : step s a = some s') (hx : x ∈ s'.db.artifacts) :
    (∃ y ∈ s.db.artifacts, y.runId = x.runId) ∨
      (∃ i blocks, a = .exec i (.analyze blocks) ∧ x.runId = s.db.runs.length) ∨
      ∃ i r blocks, a = .extractInsight i r blocks := by
  obtain ⟨db, s₁, heffect, -, rfl⟩ := step_some h
  have hmem : x ∈ db.artifacts := hx
  have hsame : db.artifacts = s.db.artifacts → ∃ y ∈ s.db.artifacts, y.runId = x.runId := by
    intro heq
    rw [heq] at hmem
    exact ⟨x, hmem, rfl⟩
  have hunchanged := unchanged_effect heffect
  cases a with
  | request q =>
    refine .inl (hsame (hunchanged.artifacts ?_))
    cases q <;> simp [Action.tables, Request.tables]
  | cancel i =>
    obtain ⟨r, -, -, rfl⟩ := effect_cancel heffect
    obtain ⟨y, hy, rfl⟩ := List.mem_map.mp hmem
    refine .inl ⟨y, hy, ?_⟩
    split
    · rfl
    · rfl
  | exec i e =>
    cases e with
    | analyze blocks =>
      obtain ⟨e, -, rfl⟩ := Option.map_eq_some_iff.mp heffect
      rcases List.mem_append.mp hmem with hold | hnew
      · exact .inl ⟨x, hold, rfl⟩
      · exact .inr (.inl ⟨i, blocks, rfl, by rw [List.eq_of_mem_replicate hnew]⟩)
    | _ => exact .inl (hsame (hunchanged.artifacts (by simp [Action.tables, ExecAction.tables])))
  | extractInsight i r blocks => exact .inr (.inr ⟨i, r, blocks, rfl⟩)
  | _ => exact .inl (hsame (hunchanged.artifacts (by simp [Action.tables])))

end Rows

/-! ## The invariant -/

/-- The execution has not got beyond its analysis: it is at work on it, or is on the way to its failure. -/
def Phase.Unanalyzed : Phase → Prop
  | .analyzing => True
  | .failing => True
  | .failRead _ => True
  | .failFlushed _ _ => True
  | .done => True
  | _ => False

/-- What holds as long as no analysis of a turn's run has committed: there is nothing to complete and nothing to
extract from. -/
structure Unanalyzed (g : List (TurnId × RunId)) (s : Sys) : Prop where
  noneRunning : NoneRunning s
  rows : ∀ t, s.db.runIds t = runsSubmitted g t
  attempts : ∀ t, (s.db.runsOfTurn t).map AnalysisRun.attemptNumber = List.range' 1 (s.db.runsOfTurn t).length
  artifacts : ∀ x ∈ s.db.artifacts, ∃ run, s.db.runs[x.runId]? = some run ∧ run.turnId = none
  phases : ∀ e ∈ s.execs, e.turnId.isSome = true → e.phase.Unanalyzed
  jobs : s.db.extractions = []
  extractings : s.extractings = []

section Invariant

variable {s s' : Sys} {a : Action} {g : List (TurnId × RunId)}

theorem unanalyzed_init : Unanalyzed [] init where
  noneRunning := noneRunning_init
  rows _ := rfl
  attempts _ := rfl
  artifacts _ hx := absurd hx List.not_mem_nil
  phases _ he := absurd he List.not_mem_nil
  jobs := rfl
  extractings := rfl

theorem submits_of_inserts {t : TurnId} (hno : a.analyzesTurn s = false) :
    a.inserts s = some (some t) ↔ a.submits s = some t := by
  cases a with
  | submit i => cases hx : s.submits[i]? <;> simp [Action.inserts, Action.submits, hx]
  | request q => cases q <;> simp [Action.inserts, Action.submits]
  | exec i x =>
    cases x with
    | analyze blocks =>
      simp only [Action.analyzesTurn] at hno
      cases he : s.execs[i]? with
      | none => simp [Action.inserts, Action.submits, he]
      | some e =>
        have hturn : e.turnId = none := by simpa [he] using hno
        simp [Action.inserts, Action.submits, he, hturn]
    | _ => simp [Action.inserts, Action.submits]
  | _ => simp [Action.inserts, Action.submits]

theorem runsSubmitted_record (u : Transition Sys Action) (t : TurnId) :
    runsSubmitted (record g u) t
      = runsSubmitted g t ++ if u.act.submits u.pre = some t then [u.pre.db.runs.length] else [] := by
  unfold runsSubmitted record
  rw [List.filter_append, List.map_append]
  congr 1
  cases u.act.submits u.pre with
  | none => simp
  | some t' =>
    by_cases heq : t' = t
    · simp [heq]
    · simp [heq]

theorem inserts_of_analyzesTurn (h : step s a = some s') (hyes : a.analyzesTurn s = true) :
    ∃ t, a.inserts s = some (some t) ∧ a.submits s = none := by
  cases a with
  | exec i x =>
    cases x with
    | analyze blocks =>
      obtain ⟨t, ht⟩ := Option.isSome_iff_exists.mp hyes
      obtain ⟨e, he, hturn⟩ := Option.bind_eq_some_iff.mp ht
      exact ⟨t, by simp [Action.inserts, he, hturn], rfl⟩
    | _ => cases hyes
  | _ => cases hyes

/-- An execution of a turn's run stays before the end of its analysis, if that does not commit. -/
theorem unanalyzed_of_next {e : Execution} {x : ExecAction} {phase : Phase} (h : e.next s x = some phase)
    (hpre : e.phase.Unanalyzed) (hx : ∀ blocks, x ≠ .analyze blocks) : phase.Unanalyzed := by
  cases x with
  | analyze blocks => exact absurd rfl (hx blocks)
  | raise =>
    simp only [Execution.next] at h
    split at h
    all_goals first | cases h; trivial | cases h
  | completeRead =>
    simp only [Execution.next] at h
    split at h
    · next hphase =>
        rw [hphase] at hpre
        cases hpre
    · cases h
  | completeFlush =>
    simp only [Execution.next] at h
    split at h
    · next hphase =>
        rw [hphase.1] at hpre
        cases hpre
    · cases h
  | completeCommit =>
    simp only [Execution.next] at h
    split at h
    · next hphase =>
        rw [hphase] at hpre
        cases hpre
    · cases h
  | failRead =>
    simp only [Execution.next] at h
    split at h
    · cases h; trivial
    · cases h
  | failFlush =>
    simp only [Execution.next] at h
    split at h
    · split at h
      · cases h
      · cases h; trivial
    · cases h
  | failCommit =>
    simp only [Execution.next] at h
    split at h
    · cases h; trivial
    · cases h
  | crash redelivered =>
    simp only [Execution.next] at h
    split at h
    · cases h
    · cases h; trivial

theorem phases_unanalyzed (hinv : Unanalyzed g s) (h : step s a = some s') (hno : a.analyzesTurn s = false) :
    ∀ e ∈ s'.execs, e.turnId.isSome = true → e.phase.Unanalyzed := by
  intro e he hturn
  have hafter := execs_step h
  generalize s'.execs = execs at hafter he
  cases hafter with
  | same => exact hinv.phases e he hturn
  | @stepped i x e₀ phase he₀ hnext =>
    rcases List.mem_or_eq_of_mem_set he with hold | rfl
    · exact hinv.phases e hold hturn
    · refine unanalyzed_of_next hnext (hinv.phases e₀ (List.mem_of_getElem? he₀) hturn) ?_
      rintro blocks rfl
      have hyes : (Action.exec i (.analyze blocks)).analyzesTurn s = true := by
        simpa [Action.analyzesTurn, he₀] using hturn
      rw [hno] at hyes
      cases hyes
  | @claimed m msg run =>
    rcases List.mem_append.mp he with hold | hnew
    · exact hinv.phases e hold hturn
    · rw [List.mem_singleton.mp hnew]
      trivial

theorem extractings_unanalyzed (hinv : Unanalyzed g s) (h : step s a = some s') : s'.extractings = [] := by
  obtain ⟨db, s₁, -, hcontrol, rfl⟩ := step_some h
  show s₁.extractings = []
  have hreceive : ∀ {m : Nat} {eventType : EventType} {p : Message × Sys}, s.receive m eventType = some p →
      p.2.extractings = [] := by
    intro m eventType p hp
    rw [(receive_some hp).2.2]
    exact hinv.extractings
  cases a with
  | checkSubmit ws t actor dept =>
    obtain ⟨turn, -, rfl⟩ := Option.map_eq_some_iff.mp hcontrol
    exact hinv.extractings
  | checkCancel r =>
    obtain ⟨_, -, rfl⟩ := Option.map_eq_some_iff.mp hcontrol
    exact hinv.extractings
  | dispatch e marks =>
    obtain ⟨ev, -, hcontrol⟩ := Option.bind_eq_some_iff.mp hcontrol
    split at hcontrol
    · obtain ⟨msg, -, rfl⟩ := Option.map_eq_some_iff.mp hcontrol
      exact hinv.extractings
    · cases hcontrol
  | drop m =>
    simp only [Sys.control] at hcontrol
    split at hcontrol
    · obtain rfl := Option.some.inj hcontrol
      exact hinv.extractings
    · cases hcontrol
  | claim m =>
    obtain ⟨p, hp, rfl⟩ := Option.map_eq_some_iff.mp hcontrol
    cases s.db.runs[p.1.aggregateId]? with
    | none => exact hreceive hp
    | some run =>
      dsimp only
      split
      · exact hreceive hp
      · exact hreceive hp
  | exec i x =>
    obtain ⟨e, he, hcontrol⟩ := Option.bind_eq_some_iff.mp hcontrol
    obtain ⟨phase, hphase, rfl⟩ := Option.map_eq_some_iff.mp hcontrol
    cases x with
    | crash redelivered => cases redelivered <;> exact hinv.extractings
    | _ => exact hinv.extractings
  | startPlan m =>
    obtain ⟨p, hp, rfl⟩ := Option.map_eq_some_iff.mp hcontrol
    cases p.1.turn? s.db with
    | none => exact hreceive hp
    | some turn =>
      dsimp only
      split
      · exact hreceive hp
      · exact hreceive hp
  | generatePlan i | failPlan i =>
    obtain ⟨x, -, hcontrol⟩ := Option.bind_eq_some_iff.mp hcontrol
    split at hcontrol
    · obtain rfl := Option.some.inj hcontrol
      exact hinv.extractings
    · cases hcontrol
  | crashPlan i =>
    obtain ⟨x, -, rfl⟩ := Option.map_eq_some_iff.mp hcontrol
    exact hinv.extractings
  | executeBatch m ok acked =>
    obtain ⟨p, hp, rfl⟩ := Option.map_eq_some_iff.mp hcontrol
    cases acked with
    | true => exact hreceive hp
    | false => exact hinv.extractings
  | claimExtraction m =>
    obtain ⟨p, hp, rfl⟩ := Option.map_eq_some_iff.mp hcontrol
    rw [hinv.jobs]
    exact hreceive hp
  | endExtraction i ok =>
    obtain rfl := Option.some.inj hcontrol
    simp [hinv.extractings]
  | crashExtraction i =>
    obtain ⟨x, hx, -⟩ := Option.map_eq_some_iff.mp hcontrol
    simp [hinv.extractings] at hx
  | legacyStart r =>
    obtain ⟨st, -, hcontrol⟩ := Option.bind_eq_some_iff.mp hcontrol
    split at hcontrol
    · cases hcontrol
    · obtain rfl := Option.some.inj hcontrol
      exact hinv.extractings
  | legacyCheck i =>
    obtain ⟨r, -, rfl⟩ := Option.map_eq_some_iff.mp hcontrol
    split
    · exact hinv.extractings
    · exact hinv.extractings
  | _ =>
    obtain rfl := Option.some.inj hcontrol
    exact hinv.extractings

theorem not_extractInsight (hinv : Unanalyzed g s) (h : step s a = some s') (i : Nat) (r : RunId) (blocks : Nat) :
    a ≠ .extractInsight i r blocks := by
  rintro rfl
  obtain ⟨db, s₁, heffect, -, -⟩ := step_some h
  obtain ⟨x, hx, -⟩ := effect_extractInsight heffect
  simp [hinv.extractings] at hx

theorem jobs_unanalyzed (hinv : Unanalyzed g s) (h : step s a = some s') : s'.db.extractions = [] := by
  rw [List.eq_nil_iff_forall_not_mem]
  intro job hjob
  obtain ⟨j, hj⟩ := List.mem_iff_getElem?.mp hjob
  have hpre : s.db.extractions[j]? = none := by simp [hinv.jobs]
  obtain ⟨-, hnew⟩ := extraction_new hinv.noneRunning h hpre hj
  cases hnew with
  | completed he hturn hphase =>
    have hbefore := hinv.phases _ (List.mem_of_getElem? he) (by simp [hturn])
    rw [hphase] at hbefore
    exact hbefore
  | insight => exact not_extractInsight hinv h _ _ _ rfl

theorem artifacts_unanalyzed (hinv : Unanalyzed g s) (h : step s a = some s') (hno : a.analyzesTurn s = false) :
    ∀ x ∈ s'.db.artifacts, ∃ run, s'.db.runs[x.runId]? = some run ∧ run.turnId = none := by
  intro x hx
  rcases artifact_step h hx with ⟨y, hy, hrun⟩ | ⟨i, blocks, rfl, hrun⟩ | ⟨i, r, blocks, rfl⟩
  · obtain ⟨run, hr, hturn⟩ := hinv.artifacts y hy
    rw [hrun] at hr
    exact ⟨a.onRun s x.runId run, run_step h hr, hturn⟩
  · -- the analysis has inserted the run of the artifact
    obtain ⟨db, s₁, heffect, -, rfl⟩ := step_some h
    obtain ⟨e, he, rfl⟩ := Option.map_eq_some_iff.mp heffect
    have hturn : e.turnId = none := by simpa [Action.analyzesTurn, he] using hno
    rw [hrun]
    exact ⟨_, List.getElem?_concat_length, hturn⟩
  · exact absurd rfl (not_extractInsight hinv h i r blocks)

theorem rows_unanalyzed (hinv : Unanalyzed g s) (h : step s a = some s') (hno : a.analyzesTurn s = false)
    (t : TurnId) : s'.db.runIds t = runsSubmitted (record g ⟨s, a, s'⟩) t := by
  rw [runIds_step h, runsSubmitted_record, hinv.rows t]
  simp only [submits_of_inserts hno]

theorem unanalyzed_step (hinv : Unanalyzed g s) (h : step s a = some s') (hno : a.analyzesTurn s = false) :
    Unanalyzed (record g ⟨s, a, s'⟩) s' where
  noneRunning := noneRunning_step h hinv.noneRunning
  rows := rows_unanalyzed hinv h hno
  attempts t := attempts_numbered h (hinv.attempts t)
  artifacts := artifacts_unanalyzed hinv h hno
  phases := phases_unanalyzed hinv h hno
  jobs := jobs_unanalyzed hinv h
  extractings := extractings_unanalyzed hinv h

theorem mem_runIds {db : Db} {t : TurnId} {r : RunId} :
    r ∈ db.runIds t ↔ ∃ run, db.runs[r]? = some run ∧ run.turnId = some t := by
  unfold Db.runIds
  simp [List.mem_zipIdx_iff_getElem?]

theorem Unanalyzed.accounted (hinv : Unanalyzed g s) : Accounted g s.db where
  rows := hinv.rows
  attempts t := by rw [hinv.attempts t, ← length_runIds, hinv.rows t]
  output t r hr hout := by
    refine ⟨hinv.rows t ▸ hr, ?_⟩
    rcases hout with hsucceeded | ⟨x, hx, rfl, -⟩
    · exact hsucceeded
    · -- a run with an artifact has no turn
      obtain ⟨run, hrun, hturn⟩ := mem_runIds.mp hr
      obtain ⟨run', hrun', hnone⟩ := hinv.artifacts x hx
      obtain rfl := Option.some.inj (hrun.symm.trans hrun')
      rw [hturn] at hnone
      cases hnone

theorem not_accounted_of_analyzes (hinv : Unanalyzed g s) (h : step s a = some s')
    (hyes : a.analyzesTurn s = true) : ¬ Accounted (record g ⟨s, a, s'⟩) s'.db := by
  intro hacc
  obtain ⟨t, hin, hsub⟩ := inserts_of_analyzesTurn h hyes
  have hrows := hacc.rows t
  rw [runIds_step h, runsSubmitted_record, hinv.rows t, if_pos hin, hsub] at hrows
  simp at hrows

end Invariant

/-! ## Runs -/

/-- **A submission is accounted for exactly in the runs in which no analysis of a turn's run commits.** For every
history: after each step each submission for a turn is exactly one row, the attempts of the turn are numbered from
1 on in the order of submission, and what has succeeded or can be published is a submitted run that has succeeded,
if and only if `analyze_data` has committed for no run of a turn. -/
theorem accounted_iff (acts : List Action) :
    Annotated record (fun g u => Accounted (record g u) u.post.db) [] (play step init acts) ↔
      ∀ u ∈ play step init acts, u.act.analyzesTurn u.pre = false := by
  have hrun : Run step init _ _ := play_run init acts
  refine hrun.annotated_iff (R := Unanalyzed) (fun h hinv => ⟨⟨fun hacc => ?_, fun hno => ?_⟩, fun hno => ?_⟩)
    unanalyzed_init
  · by_contra hyes
    exact not_accounted_of_analyzes hinv h (Bool.of_not_eq_false hyes) hacc
  · exact (unanalyzed_step hinv h hno).accounted
  · exact unanalyzed_step hinv h hno

/-- Not only a successful submission leaves output: the cancelled run leaves a second row of its turn, which has
succeeded and has an artifact that can be published. -/
theorem not_accounted : ¬ ∀ acts : List Action,
    Annotated record (fun g u => Accounted (record g u) u.post.db) [] (play step init acts) := by
  intro h
  have houtput : Annotated record (fun g u => ∀ r ∈ u.post.db.runIds 0, u.post.db.HasOutput r →
      r ∈ runsSubmitted (record g u) 0 ∧ u.post.db.runStatus? r = some .succeeded) []
      (play step init cancelledAnalysis) :=
    (h cancelledAnalysis).imp (fun _ _ hacc => hacc.output 0)
  rw [cancelledAnalysis, play_claimedRun] at houtput
  revert houtput
  decide +kernel

end Irip.Research
