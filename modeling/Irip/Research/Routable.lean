import Irip.Research.Items

/-!
# `Research.Routable` — which events of the timeline the dispatcher can send

A producer writes three identities into an untyped payload, and the dispatcher refuses an event unless all three
read as UUIDs. The services and the finalizer know theirs, the reconciler does not: it writes empty texts.
-/

namespace Irip.Research

open Runs
open Jobs (uuidText parseUuid uuidAt ResearchTaskPrincipal)

/-! ## Payloads -/

variable {ev : OutboxEvent}

/-- The dispatcher can send an event if and only if `from_payload` accepts its payload. -/
theorem routable_iff (htruthy : ev.payload.truthy = true) :
    ev.Routable ↔ (ResearchTaskPrincipal.fromPayload ev.payload).isSome = true := by
  obtain ⟨taskName, queue, hroute⟩ := exists_route ev
  have hpayload : ev.row.payload = some ev.payload := rfl
  unfold OutboxEvent.Routable Jobs.route
  rw [hroute, hpayload]
  simp only [htruthy, if_true, Option.isSome_map]

theorem routable_principalPayload {a d w : String} (h : ev.payload = principalPayload a d w) :
    ev.Routable ↔ (parseUuid a).isSome = true ∧ (parseUuid d).isSome = true ∧ (parseUuid w).isSome = true := by
  rw [routable_iff (by rw [h]; rfl), h, Jobs.isSome_fromPayload]
  have ha : uuidAt (principalPayload a d w) "actor_id" = parseUuid a := by
    simp [uuidAt, principalPayload, Jobs.scalarText]
  have hd : uuidAt (principalPayload a d w) "department_id" = parseUuid d := by
    simp [uuidAt, principalPayload, List.lookup_cons, Jobs.scalarText]
  have hw : uuidAt (principalPayload a d w) "workspace_id" = parseUuid w := by
    simp [uuidAt, principalPayload, List.lookup_cons, Jobs.scalarText]
  rw [ha, hd, hw]

theorem routable_batchPayload {b : BatchId} {mode : BatchMode} {a d w : String}
    (h : ev.payload = batchPayload b mode a d w) :
    ev.Routable ↔ (parseUuid a).isSome = true ∧ (parseUuid d).isSome = true ∧ (parseUuid w).isSome = true := by
  rw [routable_iff (by rw [h]; rfl), h, Jobs.isSome_fromPayload]
  have ha : uuidAt (batchPayload b mode a d w) "actor_id" = parseUuid a := by
    simp [uuidAt, batchPayload, List.lookup_cons, Jobs.scalarText]
  have hd : uuidAt (batchPayload b mode a d w) "department_id" = parseUuid d := by
    simp [uuidAt, batchPayload, List.lookup_cons, Jobs.scalarText]
  have hw : uuidAt (batchPayload b mode a d w) "workspace_id" = parseUuid w := by
    simp [uuidAt, batchPayload, List.lookup_cons, Jobs.scalarText]
  rw [ha, hd, hw]

theorem isSome_parseUuid_idOrEmpty (id : Option Nat) : (parseUuid (idOrEmpty id)).isSome = id.isSome := by
  cases id with
  | none => decide
  | some n => exact Jobs.isSome_parseUuid_uuidText n

theorem isSome_parseUuid_idText (id : Option Nat) : (parseUuid (idText id)).isSome = id.isSome := by
  cases id with
  | none => decide
  | some n => exact Jobs.isSome_parseUuid_uuidText n

theorem not_routable_requeueRun (now : Time) (r : RunId) (run : AnalysisRun) :
    ¬ (Reconciler.requeueRun now r run).Routable := by
  rw [routable_principalPayload rfl]
  rintro ⟨-, hdept, -⟩
  exact absurd hdept (by decide)

theorem not_routable_requeueExtraction (now : Time) (j : ExtractionId) (job : CandidateExtractionJob) :
    ¬ (Reconciler.requeueExtraction now j job).Routable := by
  rw [routable_principalPayload rfl]
  rintro ⟨hactor, -⟩
  exact absurd hactor (by decide)

/-! ## Identities -/

/-- The message knows its actor and its department. -/
def Message.Identified (msg : Message) : Prop := msg.actorId.isSome = true ∧ msg.departmentId.isSome = true

/-- Every message that is under way is identified. -/
def Identified (s : Sys) : Prop := ∀ msg, msg ∈ s.broker ∨ msg ∈ s.held → msg.Identified

theorem identified_of_event {msg : Message} (h : ev.message? = some msg) : msg.Identified := by
  obtain ⟨task, htask, rfl⟩ := Option.map_eq_some_iff.mp h
  obtain ⟨taskName, queue, hroute⟩ := exists_route ev
  simp only [Jobs.route, hroute] at htask
  obtain ⟨principal, -, rfl⟩ := Option.map_eq_some_iff.mp htask
  obtain ⟨hactor, hdept, -⟩ := Jobs.lookup_asKwargs principal
  constructor
  · simp [taskId, hactor, Jobs.isSome_parseUuid_uuidText]
  · simp [taskId, hdept, Jobs.isSome_parseUuid_uuidText]

theorem identified_init : Identified init := by
  rintro msg (h | h)
  · exact absurd h List.not_mem_nil
  · exact absurd h List.not_mem_nil

/-- **Every message that is under way is identified**: it comes from an event the dispatcher could send. -/
theorem identified_step {s s' : Sys} {a : Action} (h : step s a = some s') (hinv : Identified s) : Identified s' := by
  rintro msg (hbroker | hheld)
  · rcases mem_broker_step h hbroker with hold | hold | ⟨ev, -, hev⟩
    · exact hinv msg (.inl hold)
    · exact hinv msg (.inr hold)
    · exact identified_of_event hev
  · exact hinv msg ((handed_step h).held msg hheld)

/-! ## Runs -/

/-- The step emits an event without an identity: a pass of the reconciler requeues a run or an extraction job, or a
service without an actor or a department retries a batch. -/
def Action.misnames (s : Sys) (a : Action) : Bool :=
  match a with
  | .reconcile _ rs js =>
    rs.any (fun r => s.db.runStatus? r == some .queued) ||
      js.any (fun j => (s.db.extractions[j]?.map CandidateExtractionJob.status) == some .queued)
  | .request (.retryBatch actor dept _) => actor.isNone || dept.isNone
  | _ => false

/-- Every event of the outbox can be sent. -/
def Db.AllRoutable (db : Db) : Prop := ∀ ev ∈ db.outbox, ev.Routable

section Steps

variable {s s' : Sys} {a : Action}

theorem requeued_routable (now : Time) (db : Db) (rs : List RunId) (js : List ExtractionId) :
    (∀ ev ∈ Reconciler.requeued now db rs js, ev.Routable) ↔
      (rs.any (fun r => db.runStatus? r == some .queued) ||
        js.any (fun j => (db.extractions[j]?.map CandidateExtractionJob.status) == some .queued)) = false := by
  rw [Bool.or_eq_false_iff, List.any_eq_false, List.any_eq_false]
  unfold Reconciler.requeued
  constructor
  · intro hall
    constructor
    · intro r hr hqueued
      obtain ⟨run, hrun, hst⟩ := Option.map_eq_some_iff.mp (beq_iff_eq.mp hqueued)
      refine not_routable_requeueRun now r run (hall _ (List.mem_append_left _ ?_))
      exact List.mem_filterMap.mpr ⟨r, hr, by simp [hrun, hst]⟩
    · intro j hj hqueued
      obtain ⟨job, hjob, hst⟩ := Option.map_eq_some_iff.mp (beq_iff_eq.mp hqueued)
      refine not_routable_requeueExtraction now j job (hall _ (List.mem_append_right _ ?_))
      exact List.mem_filterMap.mpr ⟨j, hj, by simp [hjob, hst]⟩
  · rintro ⟨hruns, hjobs⟩ ev hev
    rcases List.mem_append.mp hev with hev | hev
    · obtain ⟨r, hr, heq⟩ := List.mem_filterMap.mp hev
      obtain ⟨run, hrun, heq⟩ := Option.bind_eq_some_iff.mp heq
      split at heq
      · next hst => exact absurd (by simp [Db.runStatus?, hrun, hst]) (hruns r hr)
      · cases heq
    · obtain ⟨j, hj, heq⟩ := List.mem_filterMap.mp hev
      obtain ⟨job, hjob, heq⟩ := Option.bind_eq_some_iff.mp heq
      split at heq
      · next hst => exact absurd (by simp [hjob, hst]) (hjobs j hj)
      · cases heq

/-- **The events of a step.** All of them can be sent if and only if the step does not misname one. -/
theorem emits_routable (h : step s a = some s') (hinv : Identified s) :
    (∀ ev ∈ a.emits s, ev.Routable) ↔ a.misnames s = false := by
  -- the events that name the actor and the department of their service
  have hnamed : ∀ ev : OutboxEvent, ∀ actor dept ws : Nat,
      ev.payload = principalPayload (uuidText actor) (uuidText dept) (uuidText ws) → ev.Routable := by
    intro ev actor dept ws hpayload
    rw [routable_principalPayload hpayload]
    exact ⟨Jobs.isSome_parseUuid_uuidText _, Jobs.isSome_parseUuid_uuidText _, Jobs.isSome_parseUuid_uuidText _⟩
  cases a with
  | request q =>
    cases q with
    | freezeSnapshot ws actor dept =>
      refine iff_of_true ?_ rfl
      intro ev hev
      simp only [Action.emits] at hev
      split at hev
      · exact absurd hev List.not_mem_nil
      · rw [List.mem_singleton.mp hev, routable_batchPayload rfl]
        exact ⟨Jobs.isSome_parseUuid_uuidText _, Jobs.isSome_parseUuid_uuidText _, Jobs.isSome_parseUuid_uuidText _⟩
    | startPlanning ws t actor dept | submitRun ws p snapshot t actor dept =>
      refine iff_of_true ?_ rfl
      intro ev hev
      rw [List.mem_singleton.mp hev]
      exact hnamed _ actor dept ws rfl
    | retryBatch actor dept b =>
      obtain ⟨db, s₁, heffect, -, -⟩ := step_some h
      obtain ⟨batch, hb, -, -⟩ := retryBatch_ok (Evaluation.ok_of_toOption heffect)
      simp only [Action.emits, hb, Option.toList_some, List.map_cons, List.map_nil, List.mem_singleton, forall_eq,
        Action.misnames]
      rw [routable_batchPayload rfl, isSome_parseUuid_idOrEmpty, isSome_parseUuid_idOrEmpty]
      simp only [Jobs.isSome_parseUuid_uuidText, and_true]
      cases actor <;> cases dept <;> simp
    | _ => exact iff_of_true (List.forall_mem_nil _) rfl
  | submit i =>
    refine iff_of_true ?_ rfl
    intro ev hev
    obtain ⟨x, -, rfl⟩ := List.mem_map.mp hev
    exact hnamed _ x.actorId x.departmentId x.workspaceId rfl
  | exec i x =>
    refine iff_of_true ?_ rfl
    intro ev hev
    cases x with
    | completeCommit =>
      obtain ⟨e, he, hev⟩ := List.mem_flatMap.mp hev
      rw [Option.mem_toList] at he
      split at hev
      · split at hev
        · -- the finalizer knows what the message of the execution says
          obtain ⟨hactor, hdept⟩ := hinv e.message (.inr (mem_held.mpr (.inl ⟨e, List.mem_of_getElem? he, rfl⟩)))
          rw [List.mem_singleton.mp hev, routable_principalPayload rfl, isSome_parseUuid_idOrEmpty,
            isSome_parseUuid_idText]
          exact ⟨hactor, hdept, Jobs.isSome_parseUuid_uuidText _⟩
        · exact absurd hev List.not_mem_nil
      · exact absurd hev List.not_mem_nil
    | _ => exact absurd hev List.not_mem_nil
  | reconcile clock rs js => exact requeued_routable s.now s.db rs js
  | _ => exact iff_of_true (List.forall_mem_nil _) rfl

/-- A step keeps the outbox free of events that cannot be sent if and only if it does not misname one. -/
theorem allRoutable_step (h : step s a = some s') (hinv : Identified s) (hall : s.db.AllRoutable) :
    s'.db.AllRoutable ↔ a.misnames s = false := by
  rw [← emits_routable h hinv]
  unfold Db.AllRoutable
  rw [outbox_step h]
  constructor
  · intro hpost ev hev
    exact hpost ev (List.mem_append_right _ hev)
  · intro hemits ev hev
    rcases List.mem_append.mp hev with hold | hnew
    · -- an event that was there before, marked delivered or not
      obtain ⟨k, hk⟩ := List.mem_iff_getElem?.mp hold
      rw [Table.getElem?_update] at hk
      obtain ⟨ev₀, hev₀, rfl⟩ := Option.map_eq_some_iff.mp hk
      have hrout := hall ev₀ (List.mem_of_getElem? hev₀)
      split
      · exact hrout
      · exact hrout
    · exact hemits ev hnew

end Steps

/-- **Every event can be sent exactly in the runs in which no step misnames one.** For any interleaving of the
parties, every event of the outbox is accepted by `from_payload` in every state if and only if no pass of the
reconciler requeues a run or an extraction job and no service without an actor or a department retries a batch.
Every other event is accepted, that of the finalizer included, which gets its identities from the dispatcher. -/
theorem allRoutable_iff (acts : List Action) :
    (∀ u ∈ play step init acts, u.post.db.AllRoutable) ↔
      ∀ u ∈ play step init acts, u.act.misnames u.pre = false := by
  have hrun : Run step init _ _ := play_run init acts
  apply hrun.forall_congr (I := fun s => Identified s ∧ s.db.AllRoutable)
  · rintro s a s' h ⟨hinv, hall⟩
    refine ⟨allRoutable_step h hinv hall, ?_⟩
    intro hmisnames
    exact ⟨identified_step h hinv, (allRoutable_step h hinv hall).mpr hmisnames⟩
  · refine ⟨identified_init, ?_⟩
    intro ev hev
    exact absurd hev List.not_mem_nil

/-- A submitted run has waited in the queue for eleven minutes when the reconciler finds it. -/
def requeuedRun : List Action :=
  confirmedTurn ++ [.checkSubmit 0 0 0 0, .submit 0, .tick 660000000, .reconcile 660000000 [0] []]

/-- The events of the timeline cannot all be sent in general: what the reconciler emits for a run that has waited
has no department. -/
theorem not_allRoutable : ¬ ∀ acts : List Action, ∀ u ∈ play step init acts, u.post.db.AllRoutable := by
  intro h
  have hstuck : ∃ u ∈ play step init requeuedRun, ∃ ev ∈ u.post.db.outbox[3]?, ¬ ev.Routable := by
    rw [requeuedRun, play_confirmedTurn]
    decide +kernel
  obtain ⟨u, hu, ev, hev, hnot⟩ := hstuck
  exact hnot (h requeuedRun u hu ev (List.mem_of_getElem? hev))

end Irip.Research
