import Irip.Research.Items

/-!
# `Research.WorkItems` — which queued work items are stranded

A worker looks at a recommendation batch or an extraction job only when a message names it, and a message comes from
an event only. `freeze_snapshot`, `retry_batch` and the finalizer write the event together with the row;
`request_followup` and the retry of an extraction write the row alone, and a task that raises before its first
commit takes its message along. The reconciler looks for old extraction jobs, and for no batches.
-/

namespace Irip.Research

open Runs
open Table (Update)
open Jobs (uuidText)

/-! ## Carriers -/

/-- The messages that have been sent and are not acknowledged: those in the broker, and those of the executions of
`extract_candidates`, which return with a crash. -/
def Sys.inFlight (s : Sys) : List Message := s.broker ++ s.extractings.map Extracting.message

/-- An undelivered event or a message in flight names the item. -/
def Sys.Carried (s : Sys) (kind : EventType) (id : Nat) : Prop :=
  (∃ ev ∈ s.db.outbox, ev.eventType = kind ∧ ev.aggregateId = id ∧ ev.deliveredAt = none) ∨
    ∃ msg ∈ s.inFlight, msg.eventType = kind ∧ msg.aggregateId = id

/-- Every queued batch and every queued extraction job is carried, or is a job old enough to be requeued. -/
structure Sys.NoneStranded (s : Sys) : Prop where
  batches : ∀ b, s.db.batchStatus? b = some .queued → s.Carried .recommendationRequested b
  jobs : ∀ j job, s.db.extractions[j]? = some job → job.status = .queued →
    s.Carried .candidateExtractionRequested j ∨ Reconciler.staleExtraction s.now job = true

/-- The item is queued, and only a carrier can bring it to a worker. -/
def Sys.Waits (s : Sys) (kind : EventType) (id : Nat) : Prop :=
  match kind with
  | .recommendationRequested => s.db.batchStatus? id = some .queued
  | .candidateExtractionRequested => ∃ job ∈ s.db.extractions[id]?, job.status = .queued ∧
    Reconciler.staleExtraction s.now job = false
  | _ => False

/-- The system without message `m` of the broker. -/
def Sys.without (s : Sys) (m : Nat) : Sys := { s with broker := s.broker.eraseIdx m }

/-- The system without execution `i` of `extract_candidates`. -/
def Sys.ended (s : Sys) (i : Nat) : Sys := { s with extractings := s.extractings.eraseIdx i }

/-- The step leaves a queued item without a carrier: it inserts a follow-up batch, it requeues an extraction job
that is not old and that nothing carries, or a task that raises or ends acknowledges the last message. -/
def Action.Strands (s : Sys) (a : Action) : Prop :=
  match a with
  | .request (.requestFollowup ws _ key) => s.db.batchByKey? ws key = none ∧
    ¬ s.Carried .recommendationRequested s.db.batches.length
  | .request (.retryExtraction j) => ¬ s.Carried .candidateExtractionRequested j ∧
    ∃ job ∈ s.db.extractions[j]?, ¬ job.createdAt < s.now - staleAfter
  | .drop m => ∃ msg ∈ s.broker[m]?, s.Waits msg.eventType msg.aggregateId ∧
    ¬ (s.without m).Carried msg.eventType msg.aggregateId
  | .endExtraction i _ => ∃ x ∈ s.extractings[i]?, s.Waits x.message.eventType x.message.aggregateId ∧
    ¬ (s.ended i).Carried x.message.eventType x.message.aggregateId
  | _ => False

section Steps

variable {s s' : Sys} {a : Action}

theorem noneStranded_iff_waits : s.NoneStranded ↔ ∀ kind id, s.Waits kind id → s.Carried kind id := by
  constructor
  · intro h kind id hwaits
    cases kind with
    | recommendationRequested => exact h.batches id hwaits
    | candidateExtractionRequested =>
      obtain ⟨job, hjob, hqueued, hyoung⟩ := hwaits
      rcases h.jobs id job hjob hqueued with hcarried | hold
      · exact hcarried
      · rw [hyoung] at hold
        cases hold
    | _ => exact hwaits.elim
  · intro h
    constructor
    · intro b hb
      exact h .recommendationRequested b hb
    · intro j job hjob hqueued
      cases hold : Reconciler.staleExtraction s.now job with
      | true => exact .inr rfl
      | false => exact .inl (h .candidateExtractionRequested j ⟨job, hjob, hqueued, hold⟩)

theorem mem_inFlight {msg : Message} :
    msg ∈ s.inFlight ↔ msg ∈ s.broker ∨ ∃ x ∈ s.extractings, x.message = msg := by
  simp [Sys.inFlight]

/-- The step acknowledges the message. -/
def Action.Acknowledges (s : Sys) (a : Action) (msg : Message) : Prop :=
  (∃ m, a.takes = some m ∧ s.broker[m]? = some msg) ∨
    ∃ i ok x, a = .endExtraction i ok ∧ s.extractings[i]? = some x ∧ x.message = msg

/-- **A carrier is lost by an acknowledgement only**: an event that is delivered becomes a message. -/
theorem carried_step {kind : EventType} {id : Nat} (h : step s a = some s') (hc : s.Carried kind id) :
    s'.Carried kind id ∨ ∃ msg, msg.eventType = kind ∧ msg.aggregateId = id ∧ a.Acknowledges s msg := by
  have hhanded := handed_step h
  have hreturned : ∀ msg ∈ a.returns s, msg.eventType = kind → msg.aggregateId = id → s'.Carried kind id := by
    intro msg hmsg hkind hid
    refine .inr ⟨msg, mem_inFlight.mpr (.inl ?_), hkind, hid⟩
    rw [hhanded.broker]
    exact List.mem_append_right _ hmsg
  rcases hc with ⟨ev, hev, hkind, hid, hopen⟩ | ⟨msg, hmsg, hkind, hid⟩
  · obtain ⟨k, hk⟩ := List.mem_iff_getElem?.mp hev
    by_cases hmark : k ∈ a.marks
    · -- the event is delivered, and its message is in the broker
      cases a with
      | dispatch e marks =>
        cases marks with
        | true =>
          obtain rfl := List.mem_singleton.mp hmark
          obtain ⟨db, s₁, -, hcontrol, -⟩ := step_some h
          obtain ⟨ev', hev', hcontrol⟩ := Option.bind_eq_some_iff.mp hcontrol
          obtain rfl := Option.some.inj (hk.symm.trans hev')
          rw [if_pos hopen] at hcontrol
          obtain ⟨msg, hmsg, -⟩ := Option.map_eq_some_iff.mp hcontrol
          obtain ⟨task, -, heq⟩ := Option.map_eq_some_iff.mp hmsg
          refine .inl (hreturned msg ?_ ?_ ?_)
          · simp [Action.returns, hk, hmsg]
          · rw [← heq]
            exact hkind
          · rw [← heq]
            exact hid
        | false => exact absurd hmark List.not_mem_nil
      | _ => exact absurd hmark List.not_mem_nil
    · refine .inl (.inl ⟨ev, ?_, hkind, hid, hopen⟩)
      rw [outbox_step h]
      refine List.mem_append_left _ (List.mem_of_getElem? (i := k) ?_)
      rw [Table.getElem?_update, hk, Option.map_some, if_neg hmark]
  · rcases mem_inFlight.mp hmsg with hbroker | ⟨x, hx, rfl⟩
    · cases htakes : a.takes with
      | none =>
        refine .inl (.inr ⟨msg, mem_inFlight.mpr (.inl ?_), hkind, hid⟩)
        rw [hhanded.broker, Sys.kept, htakes]
        exact List.mem_append_left _ hbroker
      | some m =>
        rcases mem_eraseIdx_or (i := m) hbroker with hkept | hgone
        · refine .inl (.inr ⟨msg, mem_inFlight.mpr (.inl ?_), hkind, hid⟩)
          rw [hhanded.broker, Sys.kept, htakes]
          exact List.mem_append_left _ hkept
        · exact .inr ⟨msg, hkind, hid, .inl ⟨m, htakes, hgone⟩⟩
    · rcases hhanded.works x hx with hkept | ⟨i, hi, ⟨ok, rfl⟩ | rfl⟩
      · exact .inl (.inr ⟨x.message, mem_inFlight.mpr (.inr ⟨x, hkept, rfl⟩), hkind, hid⟩)
      · exact .inr ⟨x.message, hkind, hid, .inr ⟨i, ok, x, rfl, hi, rfl⟩⟩
      · exact .inl (hreturned x.message (by simp [Action.returns, hi]) hkind hid)

theorem staleExtraction_mono {now now' : Time} {job : CandidateExtractionJob} (hle : now ≤ now')
    (h : Reconciler.staleExtraction now job = true) : Reconciler.staleExtraction now' job = true := by
  simp only [Reconciler.staleExtraction, Bool.and_eq_true, decide_eq_true_eq] at h ⊢
  exact ⟨h.1, lt_of_lt_of_le h.2 (Int.sub_le_sub_right hle staleAfter)⟩

theorem carried_of_emits (ev : OutboxEvent) (h : step s a = some s') (hev : ev ∈ a.emits s)
    (hopen : ev.deliveredAt = none) : s'.Carried ev.eventType ev.aggregateId := by
  refine .inl ⟨ev, ?_, rfl, rfl, hopen⟩
  rw [outbox_step h]
  exact List.mem_append_right _ hev

theorem stranded_of_strands (h : step s a = some s') (hs : a.Strands s) :
    ∃ kind id, s'.Waits kind id ∧ ¬ s'.Carried kind id := by
  obtain ⟨db, s₁, heffect, hcontrol, rfl⟩ := step_some h
  cases a with
  | request q =>
    obtain rfl := Option.some.inj hcontrol
    have hok := Evaluation.ok_of_toOption heffect
    cases q with
    | requestFollowup ws snapshot key =>
      obtain ⟨hkey, hcarried⟩ := hs
      obtain rfl := Except.ok.inj hok
      have hdb : RecommendationService.requestFollowup s.db ws snapshot key
          = s.db.insertBatch ws snapshot .followup key := by
        unfold RecommendationService.requestFollowup
        rw [hkey]
      refine ⟨.recommendationRequested, s.db.batches.length, ?_, ?_⟩
      · show Db.batchStatus? (RecommendationService.requestFollowup s.db ws snapshot key) _ = _
        rw [hdb]
        simp [Db.batchStatus?, Db.insertBatch]
      · rw [hdb]
        exact hcarried
    | retryExtraction j =>
      obtain ⟨hcarried, job, hjob, hyoung⟩ := hs
      obtain ⟨job', hjob', -, rfl⟩ := retryExtraction_ok hok
      obtain rfl := Option.some.inj (hjob'.symm.trans hjob)
      refine ⟨.candidateExtractionRequested, j, ?_, hcarried⟩
      refine ⟨(casExtractionStmt s.now job'.status .queued true).set job', ?_, rfl, ?_⟩
      · show (Table.update s.db.extractions [j] _)[j]? = _
        rw [Table.getElem?_update, hjob', Option.map_some, if_pos (List.mem_singleton.mpr rfl),
          Update.apply_of_cond (by simp [casExtractionStmt])]
      · simpa [Reconciler.staleExtraction, casExtractionStmt] using hyoung
    | _ => exact hs.elim
  | drop m =>
    obtain ⟨msg, -, hwaits, hcarried⟩ := hs
    obtain rfl := Option.some.inj heffect
    simp only [Sys.control] at hcontrol
    split at hcontrol
    · obtain rfl := Option.some.inj hcontrol
      exact ⟨msg.eventType, msg.aggregateId, hwaits, hcarried⟩
    · cases hcontrol
  | endExtraction i ok =>
    obtain ⟨x, hx, hwaits, hcarried⟩ := hs
    obtain rfl := Option.some.inj hcontrol
    obtain ⟨x', -, rfl⟩ := Option.map_eq_some_iff.mp heffect
    refine ⟨x.message.eventType, x.message.aggregateId, ?_, hcarried⟩
    -- the compare-and-set of the ending execution finds a running job only
    revert hwaits
    cases x.message.eventType with
    | candidateExtractionRequested =>
      rintro ⟨job, hjob, hqueued, hyoung⟩
      refine ⟨job, ?_, hqueued, hyoung⟩
      have hrow : s.db.extractions[x.message.aggregateId]? = some job := hjob
      show (Table.update s.db.extractions [x'.job] _)[x.message.aggregateId]? = _
      rw [Table.getElem?_update, hrow, Option.map_some,
        Update.apply_of_not_cond (by simp [casExtractionStmt, hqueued]), ite_self]
    | _ => exact fun hwaits => hwaits
  | _ => exact hs.elim

/-- What is still in flight once a message is acknowledged carries the item, unless the step strands it. -/
theorem carried_of_acknowledges {kind : EventType} {id : Nat} {msg : Message} (h : step s a = some s')
    (hns : ¬ a.Strands s) (hwaits : s.Waits kind id) (hkind : msg.eventType = kind) (hid : msg.aggregateId = id)
    (hack : a.Acknowledges s msg) (hidle : kind = .recommendationRequested → a.setsBatch s id = none)
    (hidle' : kind = .candidateExtractionRequested → a.setsExtraction s id = none) : s'.Carried kind id := by
  subst hkind hid
  obtain ⟨db, s₁, heffect, hcontrol, rfl⟩ := step_some h
  rcases hack with ⟨m, htakes, hmsg⟩ | ⟨i, ok, x, rfl, hx, rfl⟩
  · cases a with
    | drop m' =>
      obtain rfl := Option.some.inj htakes
      by_contra hcarried
      apply hns
      refine ⟨msg, hmsg, hwaits, ?_⟩
      intro hrest
      apply hcarried
      obtain rfl := Option.some.inj heffect
      simp only [Sys.control] at hcontrol
      split at hcontrol
      · obtain rfl := Option.some.inj hcontrol
        exact hrest
      · cases hcontrol
    | claim m' =>
      -- the message of a run carries neither a batch nor an extraction job
      obtain rfl := Option.some.inj htakes
      obtain ⟨p, hp, -⟩ := Option.map_eq_some_iff.mp hcontrol
      obtain ⟨hmsg', hkind, -⟩ := receive_some hp
      obtain rfl := Option.some.inj (hmsg.symm.trans hmsg')
      rw [hkind] at hwaits
      exact hwaits.elim
    | startPlan m' =>
      obtain rfl := Option.some.inj htakes
      obtain ⟨p, hp, -⟩ := Option.map_eq_some_iff.mp hcontrol
      obtain ⟨hmsg', hkind, -⟩ := receive_some hp
      obtain rfl := Option.some.inj (hmsg.symm.trans hmsg')
      rw [hkind] at hwaits
      exact hwaits.elim
    | executeBatch m' ok acked =>
      -- a queued batch is executed by the task that takes its message
      simp only [Action.takes] at htakes
      split at htakes
      · obtain rfl := Option.some.inj htakes
        obtain ⟨p, hp, -⟩ := Option.map_eq_some_iff.mp hcontrol
        obtain ⟨hmsg', hkind, -⟩ := receive_some hp
        obtain rfl := Option.some.inj (hmsg.symm.trans hmsg')
        have hnone := hidle hkind
        rw [hkind] at hwaits
        have hqueued : s.db.batchStatus? p.1.aggregateId = some .queued := hwaits
        simp [Action.setsBatch, hmsg, hqueued] at hnone
      · cases htakes
    | claimExtraction m' =>
      obtain rfl := Option.some.inj htakes
      obtain ⟨p, hp, -⟩ := Option.map_eq_some_iff.mp hcontrol
      obtain ⟨hmsg', hkind, -⟩ := receive_some hp
      obtain rfl := Option.some.inj (hmsg.symm.trans hmsg')
      have hnone := hidle' hkind
      rw [hkind] at hwaits
      obtain ⟨job, hjob, hqueued, -⟩ := hwaits
      have hst : s.db.extractionStatus? p.1.aggregateId = some .queued := by
        have hrow : s.db.extractions[p.1.aggregateId]? = some job := hjob
        simp [Db.extractionStatus?, hrow, hqueued]
      simp [Action.setsExtraction, hmsg, hst] at hnone
    | _ => cases htakes
  · by_contra hcarried
    apply hns
    refine ⟨x, hx, hwaits, ?_⟩
    intro hrest
    apply hcarried
    obtain rfl := Option.some.inj hcontrol
    obtain ⟨x', -, rfl⟩ := Option.map_eq_some_iff.mp heffect
    exact hrest

/-- **The batches after a step that strands nothing.** -/
theorem batches_carried {b : BatchId} (h : step s a = some s') (hinv : s.NoneStranded) (hns : ¬ a.Strands s)
    (hb : s'.db.batchStatus? b = some .queued) : s'.Carried .recommendationRequested b := by
  cases hpre : s.db.batchStatus? b with
  | none =>
    have hrow : s.db.batches[b]? = none := by simpa [Db.batchStatus?] using hpre
    obtain ⟨batch, hbatch, -⟩ := Option.map_eq_some_iff.mp hb
    obtain ⟨rfl, hnew⟩ := batch_new h hrow hbatch
    cases hnew with
    | @frozen ws actor dept hkey =>
      refine carried_of_emits (batchEvent s.now s.db.batches.length .initial (uuidText actor)
        (uuidText dept) (uuidText ws)) h ?_ rfl
      simp [Action.emits, hkey]
    | @followup ws snapshot key hkey =>
      -- the insertion would have stranded it
      have hcarried : s.Carried .recommendationRequested s.db.batches.length := by
        by_contra hno
        exact hns ⟨hkey, hno⟩
      rcases carried_step h hcarried with hkept | ⟨msg, -, -, ⟨m, htakes, -⟩ | ⟨i, ok, x, heq, -⟩⟩
      · exact hkept
      · cases htakes
      · cases heq
  | some st =>
    rw [batchStatus_step h hpre] at hb
    cases hsets : a.setsBatch s b with
    | none =>
      rw [hsets] at hb
      have hwaits : s.Waits .recommendationRequested b := hpre.trans hb
      rcases carried_step h (hinv.batches b (hpre.trans hb)) with hkept | ⟨msg, hkind, hid, hack⟩
      · exact hkept
      · exact carried_of_acknowledges h hns hwaits hkind hid hack (fun _ => hsets) (fun heq => by cases heq)
    | some st' =>
      rw [hsets] at hb
      have hst' : st' = .queued := Option.some.inj hb
      subst hst'
      -- of the steps that write a batch only a retry queues it
      cases a with
      | request q =>
        cases q with
        | retryBatch actor dept b' =>
          simp only [Action.setsBatch] at hsets
          split at hsets
          · next heq =>
              subst heq
              obtain ⟨batch, hbatch, -⟩ := Option.map_eq_some_iff.mp hpre
              refine carried_of_emits (batchEvent s.now b batch.mode (idOrEmpty actor) (idOrEmpty dept)
                (uuidText batch.workspaceId)) h ?_ rfl
              simp [Action.emits, hbatch]
          · cases hsets
        | _ => cases hsets
      | executeBatch m ok acked =>
        simp only [Action.setsBatch] at hsets
        split at hsets
        · cases ok <;> cases hsets
        · cases hsets
      | _ => cases hsets

/-- **The extraction jobs after a step that strands nothing.** -/
theorem jobs_carried {j : ExtractionId} {job' : CandidateExtractionJob} (hnone : NoneRunning s)
    (h : step s a = some s') (hinv : s.NoneStranded) (hns : ¬ a.Strands s)
    (hj : s'.db.extractions[j]? = some job') (hqueued : job'.status = .queued) :
    s'.Carried .candidateExtractionRequested j ∨ Reconciler.staleExtraction s'.now job' = true := by
  cases hpre : s.db.extractions[j]? with
  | none =>
    obtain ⟨rfl, hnew⟩ := extraction_new hnone h hpre hj
    cases hnew with
    | @completed i e t seenTurn he hturn hphase hcompletes hkey =>
      have hjob : TimelineRunFinalizer.jobKey s.db e.run = s.db.extractions.length := by
        unfold TimelineRunFinalizer.jobKey
        rw [hkey]
        rfl
      have hcarried := carried_of_emits (TimelineRunFinalizer.completedEvent s.now s.db e.message.actorId
        e.message.departmentId e.run e.workspaceId) h (by simp [Action.emits, he, hphase, hcompletes]) rfl
      rw [← hjob]
      exact .inl hcarried
    | insight => cases hqueued
  | some job =>
    obtain ⟨job'', hj'', hafter⟩ := extraction_step hnone h hpre
    obtain rfl := Option.some.inj (hj''.symm.trans hj)
    cases hsets : a.setsExtraction s j with
    | none =>
      obtain rfl := hafter.same hsets
      rcases hinv.jobs j job'' hpre hqueued with hcarried | hold
      · cases hyoung : Reconciler.staleExtraction s.now job'' with
        | true => exact .inr (staleExtraction_mono (handed_step h).now hyoung)
        | false =>
          refine .inl ?_
          rcases carried_step h hcarried with hkept | ⟨msg, hkind, hid, hack⟩
          · exact hkept
          · exact carried_of_acknowledges h hns ⟨job'', hpre, hqueued, hyoung⟩ hkind hid hack
              (fun heq => by cases heq) (fun _ => hsets)
      · exact .inr (staleExtraction_mono (handed_step h).now hold)
    | some st =>
      have hst : st = .queued := by
        have hstatus := hafter.status
        rw [hsets, hqueued] at hstatus
        exact hstatus.symm
      subst hst
      -- of the steps that write a job only a retry queues it
      cases a with
      | request q =>
        cases q with
        | retryExtraction j' =>
          simp only [Action.setsExtraction] at hsets
          split at hsets
          · next heq =>
              subst heq
              by_cases hyoung : job.createdAt < s.now - staleAfter
              · right
                have hnow := (handed_step h).now
                have hcreated := hafter.created
                simp only [Reconciler.staleExtraction, hqueued, hcreated, Bool.and_eq_true, decide_eq_true_eq]
                exact ⟨rfl, lt_of_lt_of_le hyoung (Int.sub_le_sub_right hnow staleAfter)⟩
              · have hcarried : s.Carried .candidateExtractionRequested j := by
                  by_contra hno
                  exact hns ⟨hno, job, hpre, hyoung⟩
                rcases carried_step h hcarried with hkept | ⟨msg, -, -, ⟨m, htakes, -⟩ | ⟨i, ok, x, heq, -⟩⟩
                · exact .inl hkept
                · cases htakes
                · cases heq
          · cases hsets
        | _ => cases hsets
      | claimExtraction m =>
        simp only [Action.setsExtraction] at hsets
        split at hsets
        · unfold claimedStatus at hsets
          split at hsets <;> cases hsets
        · cases hsets
      | endExtraction i ok =>
        simp only [Action.setsExtraction] at hsets
        split at hsets
        · cases ok <;> cases hsets
        · cases hsets
      | reconcile clock rs js =>
        simp only [Action.setsExtraction] at hsets
        split at hsets <;> cases hsets
      | _ => cases hsets

/-- **A step keeps every queued item carried if and only if it strands none.** -/
theorem noneStranded_step (hnone : NoneRunning s) (h : step s a = some s') (hinv : s.NoneStranded) :
    s'.NoneStranded ↔ ¬ a.Strands s := by
  constructor
  · intro hpost hs
    obtain ⟨kind, id, hwaits, hcarried⟩ := stranded_of_strands h hs
    exact hcarried (noneStranded_iff_waits.mp hpost kind id hwaits)
  · intro hns
    exact ⟨fun b hb => batches_carried h hinv hns hb, fun j job hj hq => jobs_carried hnone h hinv hns hj hq⟩

end Steps

/-! ## Runs -/

/-- **No queued work item is stranded exactly in the runs in which no step strands one.** For any interleaving of the
parties, every queued batch and every queued extraction job has an undelivered event, a message in flight or (a
job) the age the reconciler looks for, in every state, if and only if no call of `request_followup` inserts a
batch, no retry queues an extraction job that is not old and that nothing carries any more, and no task that
raises before its first commit or that ends acknowledges the last message of an item that waits for it. -/
theorem noneStranded_iff (acts : List Action) :
    (∀ u ∈ play step init acts, u.post.NoneStranded) ↔ ∀ u ∈ play step init acts, ¬ u.act.Strands u.pre := by
  have hrun : Run step init _ _ := play_run init acts
  apply hrun.forall_congr (I := fun s => NoneRunning s ∧ s.NoneStranded)
  · rintro s a s' h ⟨hnone, hinv⟩
    refine ⟨noneStranded_step hnone h hinv, ?_⟩
    intro hns
    exact ⟨noneRunning_step h hnone, (noneStranded_step hnone h hinv).mpr hns⟩
  · refine ⟨noneRunning_init, ?_, ?_⟩
    · intro b hb
      cases hb
    · intro j job hj
      cases hj

/-- A user asks for follow-up recommendations. -/
def silentFollowup : List Action :=
  [.request (.createWorkspace 0 0), .request (.requestFollowup 0 0 "followup")]

/-- Queued work items are stranded in general: a follow-up batch has neither event nor message. -/
theorem followup_stranded : ¬ ∀ acts : List Action, ∀ u ∈ play step init acts, u.post.NoneStranded := by
  intro h
  have hsilent : ∃ u ∈ play step init silentFollowup, u.post.db.batchStatus? 0 = some .queued ∧
      u.post.db.outbox.length = 0 ∧ u.post.inFlight.length = 0 := by decide
  obtain ⟨u, hu, hqueued, hevents, hmessages⟩ := hsilent
  rcases (h silentFollowup u hu).batches 0 hqueued with ⟨ev, hev, -⟩ | ⟨msg, hmsg, -⟩
  · rw [List.length_eq_zero_iff.mp hevents] at hev
    exact absurd hev List.not_mem_nil
  · rw [List.length_eq_zero_iff.mp hmessages] at hmsg
    exact absurd hmsg List.not_mem_nil

end Irip.Research
