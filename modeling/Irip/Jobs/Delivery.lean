import Irip.Jobs.System

/-!
# `Jobs.Delivery` — when an accepted job is lost

A job that is not terminal moves on only through an undelivered event, a message in flight, the reaper
(running under a lease that can expire) or the retry scan (waiting with a due time). Every step of the
system keeps one of the four armed, except two that use one up: acknowledging a finished task, whatever
became of it, and recording events as delivered after their messages were sent.
-/

namespace Irip.Jobs

open Table (Update)
open Runs

/-! ## Armed jobs -/

/-- The event is about the job with key `j`. -/
def OutboxEvent.About (ev : OutboxEvent) (j : JobId) : Prop := ev.aggregateType = "job" ∧ ev.aggregateId = j

/-- There is an undelivered event for the job. -/
def Db.HasEvent (db : Db) (j : JobId) : Prop :=
  ∃ (i : EventId) (ev : OutboxEvent), db.outbox[i]? = some ev ∧ ev.About j ∧ ev.deliveredAt = none

/-- There is a message for the job in the broker, or one that a worker has not acknowledged. -/
def Sys.InFlight (s : Sys) (j : JobId) : Prop :=
  j ∈ s.broker ∨ ∃ (e : Nat) (x : Execution), s.execs[e]? = some x ∧ x.job = j ∧ x.holds = true

/-- The reaper will see the job. -/
def Job.Leased (job : Job) : Prop := job.status = .running ∧ job.leaseExpiresAt ≠ none

/-- The retry scan will see the job. -/
def Job.Waiting (job : Job) : Prop := job.status = .retryWait ∧ job.runAfter ≠ none

/-- Some mechanism that will move the job on is armed. -/
def Sys.Armed (s : Sys) (j : JobId) (job : Job) : Prop :=
  s.db.HasEvent j ∨ s.InFlight j ∨ job.Leased ∨ job.Waiting

/-- No job is lost. -/
def Sys.NoneLost (s : Sys) : Prop :=
  ∀ j job, s.db.job? j = some job → ¬ job.status.IsTerminal → s.Armed j job

variable {db : Db} {j : JobId} {s s' : Sys} {sent : List (EventId × Time)} {l : Label} {cfg : Config}

theorem hasEvent_iff : db.HasEvent j ↔ ∃ ev ∈ db.outbox, ev.About j ∧ ev.deliveredAt = none := by
  constructor
  · rintro ⟨i, ev, hev, hab⟩
    exact ⟨ev, List.mem_of_getElem? hev, hab⟩
  · rintro ⟨ev, hev, hab⟩
    obtain ⟨i, hi⟩ := List.mem_iff_getElem?.mp hev
    exact ⟨i, ev, hi, hab⟩

theorem inFlight_iff : s.InFlight j ↔ j ∈ s.broker ∨ ∃ x ∈ s.execs, x.job = j ∧ x.holds = true := by
  refine or_congr_right ?_
  constructor
  · rintro ⟨e, x, hx, hh⟩
    exact ⟨x, List.mem_of_getElem? hx, hh⟩
  · rintro ⟨x, hx, hh⟩
    obtain ⟨e, he⟩ := List.mem_iff_getElem?.mp hx
    exact ⟨e, x, he, hh⟩

instance (ev : OutboxEvent) (j : JobId) : Decidable (ev.About j) := inferInstanceAs (Decidable (_ ∧ _))

instance (db : Db) (j : JobId) : Decidable (db.HasEvent j) := decidable_of_iff _ hasEvent_iff.symm

instance (s : Sys) (j : JobId) : Decidable (s.InFlight j) := decidable_of_iff _ inFlight_iff.symm

instance (job : Job) : Decidable job.Leased := inferInstanceAs (Decidable (_ ∧ _))

instance (job : Job) : Decidable job.Waiting := inferInstanceAs (Decidable (_ ∧ _))

instance (s : Sys) (j : JobId) (job : Job) : Decidable (s.Armed j job) :=
  inferInstanceAs (Decidable (_ ∨ _))

/-! ## Using up -/

/-- The task of execution `e` may be acknowledged: its job is terminal, or an event, another message, a
lease or a due time will move it on without this message. -/
def Sys.AckSafe (s : Sys) (e : Nat) : Prop :=
  ∀ x job, s.execs[e]? = some x → s.db.job? x.job = some job → ¬ job.status.IsTerminal →
    s.db.HasEvent x.job ∨ x.job ∈ s.broker ∨
      (∃ (e' : Nat) (x' : Execution), e' ≠ e ∧ s.execs[e']? = some x' ∧ x'.job = x.job ∧
        x'.holds = true) ∨
      job.Leased ∨ job.Waiting

/-- The events dispatcher `d` has sent may be recorded as delivered: the job of each is terminal, or an
event outside the batch, a message still in flight, a lease or a due time will move it on. -/
def Sys.DeliverySafe (s : Sys) (d : Nat) : Prop :=
  ∀ dp, s.dispatches[d]? = some dp → ∀ p ∈ dp.sent, ∀ ev, s.db.outbox[p.1]? = some ev →
    ∀ j job, ev.About j → s.db.job? j = some job → ¬ job.status.IsTerminal →
      (∃ (i : EventId) (ev' : OutboxEvent), i ∉ dp.sent.map Prod.fst ∧ s.db.outbox[i]? = some ev' ∧
        ev'.About j ∧ ev'.deliveredAt = none) ∨
      s.InFlight j ∨ job.Leased ∨ job.Waiting

/-- What the steps that use up a message or an event need to find. -/
def Sys.UseUpSafe (s : Sys) (l : Label) : Prop :=
  match l.act with
  | .exec e .ack => s.AckSafe e
  | .dispatchCommit d => s.DeliverySafe d
  | _ => True

/-! ## Transactions -/

theorem outbox_enqueueRequeued (now : Time) (db : Db) (js : List JobId) :
    ∃ new, (JobRepository.enqueueRequeued now db js).outbox = db.outbox ++ new ∧
      ∀ j ∈ js, ∃ ev ∈ new, ev.About j ∧ ev.deliveredAt = none := by
  unfold JobRepository.enqueueRequeued
  induction js generalizing db with
  | nil => exact ⟨[], by simp, by simp⟩
  | cons i js ih =>
    obtain ⟨new, hnew, hall⟩ := ih (db.enqueue now "job" i "job.requeued" none)
    let first : OutboxEvent :=
      { aggregateType := "job", aggregateId := i, eventType := "job.requeued", occurredAt := now }
    refine ⟨first :: new, ?_, ?_⟩
    · rw [List.foldl_cons, hnew]
      simp only [Db.enqueue, List.append_assoc, List.cons_append, List.nil_append, first]
    · intro j hj
      rcases List.mem_cons.mp hj with rfl | hj
      · exact ⟨first, List.mem_cons_self, ⟨rfl, rfl⟩, rfl⟩
      · obtain ⟨ev, hev, hab⟩ := hall j hj
        exact ⟨ev, List.mem_cons_of_mem _ hev, hab⟩

/-- **Events are only appended**, by every transaction but the dispatcher's. -/
theorem outbox_run (now clock : Time) (db : Db) {w : Write} (hw : ∀ sent, w ≠ .deliver sent) :
    ∃ new, (w.run now clock db).outbox = db.outbox ++ new := by
  cases w with
  | accept d u kind payload key =>
    simp only [Write.run, JobService.accept]
    by_cases hk : isBlank kind = true
    · exact ⟨[], by simp [hk]⟩
    · cases hi : JobRepository.getByIdempotencyDept db d key with
      | some i =>
        cases hrow : db.job? i with
        | none | some existing => exact ⟨[], by simp [hk, hrow]⟩
      | none => exact ⟨_, by simp only [hk]; rfl⟩
  | requestCancel j seen actor =>
    simp only [Write.run, JobService.requestCancelUpdate]
    by_cases hm : db.matched j (JobService.requestCancelStmt now seen.lockVersion) = true
    · exact ⟨_, by simp only [hm, if_true]; rfl⟩
    · exact ⟨[], by simp [hm]⟩
  | reap js =>
    obtain ⟨new, hnew, -⟩ := outbox_enqueueRequeued now (db.update js (JobRepository.reapUpdate now)) js
    exact ⟨new, hnew⟩
  | commit j v attempt c =>
    cases c with
    | success result | failure error => exact ⟨[], (List.append_nil _).symm⟩
    | retry error => exact ⟨_, rfl⟩
  | requeue j => exact ⟨_, rfl⟩
  | deliver sent => exact absurd rfl (hw sent)
  | acquire j owner expiresAt | renew j owner expiresAt | release j owner | markJobFailed j error
  | updateJobStatus j status => exact ⟨[], (List.append_nil _).symm⟩

theorem hasEvent_of_append {db' : Db} {new : List OutboxEvent} (h : db'.outbox = db.outbox ++ new)
    : db.HasEvent j → db'.HasEvent j := by
  rintro ⟨i, ev, hev, hab⟩
  refine ⟨i, ev, ?_, hab⟩
  have hlt : i < db.outbox.length := (List.getElem?_eq_some_iff.mp hev).1
  rw [h, List.getElem?_append_left hlt, hev]

theorem hasEvent_of_mem {ev : OutboxEvent} (h : ev ∈ db.outbox) (hab : ev.About j)
    (hd : ev.deliveredAt = none) : db.HasEvent j :=
  hasEvent_iff.mpr ⟨ev, h, hab, hd⟩

theorem hasEvent_enqueue (db : Db) (now : Time) (j : JobId) (ty : String) (payload : Option Json) :
    (db.enqueue now "job" j ty payload).HasEvent j :=
  hasEvent_of_mem (List.mem_append_right _ List.mem_cons_self) ⟨rfl, rfl⟩ rfl

/-- The row has kept its status and is as well armed by its own columns as it was. -/
def Job.AsArmed (job new : Job) : Prop :=
  new.status = job.status ∧ (job.Leased → new.Leased) ∧ (job.Waiting → new.Waiting)

theorem asArmed_refl (job : Job) : job.AsArmed job := ⟨rfl, id, id⟩

theorem updateStatus_row (now : Time) (st : JobStatus) (r e : Option Json) (v : Nat) (job : Job) :
    ((JobRepository.updateStatus now st r e (some v)).apply job).status = st ∨
      (JobRepository.updateStatus now st r e (some v)).apply job = job := by
  by_cases hc : (JobRepository.updateStatus now st r e (some v)).cond job = true
  · exact .inl (by rw [Update.apply_of_cond hc]; rfl)
  · exact .inr (Update.apply_of_not_cond (by simpa using hc))

/-- **What a transaction leaves behind.** The row it has found is terminal, or under a lease, or as well
armed as before, or an event for it is in the outbox; a release is the one exception. -/
theorem row_armed (now clock : Time) (w : Write) {job : Job} (hj : db.job? j = some job) :
    (w.onRow now clock j job).status.IsTerminal ∨ (w.onRow now clock j job).Leased ∨
      job.AsArmed (w.onRow now clock j job) ∨ (w.run now clock db).HasEvent j ∨ ∃ owner, w = .release j owner := by
  by_cases hjs : j ∈ (w.stmt now clock).1
  · have hrow : w.onRow now clock j job = (w.stmt now clock).2.apply job := if_pos hjs
    rw [hrow]
    cases w with
    | accept d u kind payload key | deliver sent => exact absurd hjs List.not_mem_nil
    | requestCancel i seen actor =>
      obtain rfl := List.mem_singleton.mp hjs
      by_cases hc : (JobService.requestCancelStmt now seen.lockVersion).cond job = true
      · have hm := matched_iff.mpr ⟨job, hj, hc⟩
        refine .inr (.inr (.inr (.inl ?_)))
        simp only [Write.run, JobService.requestCancelUpdate, hm, if_true]
        exact hasEvent_enqueue _ _ _ _ _
      · have hfix : (JobService.requestCancelStmt now seen.lockVersion).apply job = job :=
          Update.apply_of_not_cond (by simpa using hc)
        exact .inr (.inr (.inl (hfix.symm ▸ asArmed_refl job)))
    | acquire i owner expiresAt =>
      by_cases hc : (JobRepository.acquireLeaseWithFencing now owner expiresAt).cond job = true
      · have hset : (JobRepository.acquireLeaseWithFencing now owner expiresAt).apply job = _ :=
          Update.apply_of_cond hc
        exact .inr (.inl (hset.symm ▸ ⟨rfl, Option.some_ne_none _⟩))
      · have hfix : (JobRepository.acquireLeaseWithFencing now owner expiresAt).apply job = job :=
          Update.apply_of_not_cond (by simpa using hc)
        exact .inr (.inr (.inl (hfix.symm ▸ asArmed_refl job)))
    | renew i owner expiresAt =>
      refine .inr (.inr (.inl ?_))
      by_cases hc : (JobRepository.renewLease now owner expiresAt).cond job = true
      · have hset : (JobRepository.renewLease now owner expiresAt).apply job = _ :=
          Update.apply_of_cond hc
        exact hset.symm ▸ ⟨rfl, fun h => ⟨h.1, Option.some_ne_none _⟩, id⟩
      · have hfix : (JobRepository.renewLease now owner expiresAt).apply job = job :=
          Update.apply_of_not_cond (by simpa using hc)
        exact hfix.symm ▸ asArmed_refl job
    | release i owner =>
      obtain rfl := List.mem_singleton.mp hjs
      exact .inr (.inr (.inr (.inr ⟨owner, rfl⟩)))
    | reap js =>
      refine .inr (.inr (.inr (.inl ?_)))
      obtain ⟨new, hnew, hall⟩ :=
        outbox_enqueueRequeued now (db.update js (JobRepository.reapUpdate now)) js
      obtain ⟨ev, hev, hab, hd⟩ := hall j hjs
      refine hasEvent_of_mem ?_ hab hd
      show ev ∈ (JobRepository.enqueueRequeued now _ js).outbox
      rw [hnew]
      exact List.mem_append_right _ hev
    | requeue i =>
      obtain rfl := List.mem_singleton.mp hjs
      exact .inr (.inr (.inr (.inl (hasEvent_enqueue _ _ _ _ _))))
    | commit i v attempt c =>
      obtain rfl := List.mem_singleton.mp hjs
      cases c with
      | retry error => exact .inr (.inr (.inr (.inl (hasEvent_enqueue _ _ _ _ _))))
      | success result =>
        rcases updateStatus_row now .succeeded result none v job with h | h
        · exact .inl (isTerminal_iff.mpr (.inl h))
        · exact .inr (.inr (.inl (h.symm ▸ asArmed_refl job)))
      | failure error =>
        rcases updateStatus_row now .failed none (some error.toDict) v job with h | h
        · exact .inl (isTerminal_iff.mpr (.inr (.inl h)))
        · exact .inr (.inr (.inl (h.symm ▸ asArmed_refl job)))
    | markJobFailed i error => exact .inl (isTerminal_iff.mpr (.inr (.inl rfl)))
    | updateJobStatus i status =>
      refine .inl ?_
      show (statusMap status).IsTerminal
      unfold statusMap
      split <;> decide
  · have hrow : w.onRow now clock j job = job := if_neg hjs
    exact .inr (.inr (.inl (hrow.symm ▸ asArmed_refl job)))

theorem hasEvent_of_new_row {now clock : Time} {w : Write} {job : Job}
    (hnone : db.job? j = none) (hsome : (w.run now clock db).job? j = some job) :
    (w.run now clock db).HasEvent j := by
  obtain ⟨d, u, kind, payload, key, evPayload, -, hrun⟩ := run_new_row hnone hsome
  rw [hrun]
  exact hasEvent_enqueue _ _ _ _ _

/-! ### The dispatcher's transaction -/

theorem outbox_deliver_of_not_mem {i : EventId}
    (hi : i ∉ sent.map Prod.fst) : (db.deliver sent).outbox[i]? = db.outbox[i]? := by
  unfold Db.deliver
  induction sent generalizing db with
  | nil => rfl
  | cons p sent ih =>
    simp only [List.map_cons, List.mem_cons, not_or] at hi
    rw [List.foldl_cons, ih hi.2]
    simp only [Table.getElem?_update, List.mem_singleton, if_neg hi.1, Option.map_id']

theorem delivered_deliver (sent : List (EventId × Time)) {i : EventId}
    (hdel : ∀ ev, db.outbox[i]? = some ev → ev.deliveredAt ≠ none) {ev : OutboxEvent}
    (hev : (db.deliver sent).outbox[i]? = some ev) : ev.deliveredAt ≠ none := by
  unfold Db.deliver at hev
  induction sent generalizing db with
  | nil => exact hdel ev hev
  | cons p sent ih =>
    refine ih ?_ hev
    intro ev' hev'
    rw [Table.getElem?_update] at hev'
    obtain ⟨ev₀, hev₀, rfl⟩ := Option.map_eq_some_iff.mp hev'
    by_cases hi : i ∈ [p.1]
    · rw [if_pos hi]; exact Option.some_ne_none _
    · rw [if_neg hi]; exact hdel ev₀ hev₀

theorem outbox_deliver_of_mem {i : EventId}
    (hi : i ∈ sent.map Prod.fst) {ev : OutboxEvent} (hev : (db.deliver sent).outbox[i]? = some ev) :
    ev.deliveredAt ≠ none := by
  induction sent generalizing db with
  | nil => exact absurd hi List.not_mem_nil
  | cons p sent ih =>
    rcases List.mem_cons.mp hi with rfl | hi
    · refine delivered_deliver sent ?_ hev
      intro ev' hev'
      rw [Table.getElem?_update] at hev'
      obtain ⟨ev₀, -, rfl⟩ := Option.map_eq_some_iff.mp hev'
      rw [if_pos (List.mem_singleton_self _)]
      exact Option.some_ne_none _
    · exact ih hi hev

/-! ## Steps -/

theorem effect_deliver (h : effect s l = some (.deliver sent)) : ∃ d, l.act = .dispatchCommit d := by
  rcases effect_cases h with ⟨e, a, x, -, -, hw⟩ | ⟨d, dp, ha, -⟩ | ⟨_, _, _, _, _, hw⟩ | ⟨_, _, _, hw⟩ |
    ⟨_, hw⟩ | ⟨_, hw⟩ | ⟨_, _, hw⟩
  · exact absurd rfl ((write_lease hw).1 sent)
  · exact ⟨d, ha⟩
  all_goals cases hw

theorem effect_release {owner : String} (h : effect s l = some (.release j owner)) :
    ∃ e x, l.act = .exec e .release ∧ s.execs[e]? = some x ∧ x.job = j ∧ x.owner = owner := by
  rcases effect_cases h with ⟨e, a, x, ha, hx, hw⟩ | ⟨_, _, _, _, hw⟩ | ⟨_, _, _, _, _, hw⟩ |
    ⟨_, _, _, hw⟩ | ⟨_, hw⟩ | ⟨_, hw⟩ | ⟨_, _, hw⟩
  · obtain ⟨rfl, rfl, rfl⟩ := (write_lease hw).2.2 j owner rfl
    exact ⟨e, x, ha, hx, rfl, rfl⟩
  all_goals cases hw

theorem mem_eraseIdx_or {broker : List JobId} {m : Nat} (h : j ∈ broker) :
    broker[m]? = some j ∨ j ∈ broker.eraseIdx m := by
  obtain ⟨i, hi⟩ := List.mem_iff_getElem?.mp h
  by_cases him : i = m
  · exact .inl (him ▸ hi)
  · exact .inr (List.mem_eraseIdx_iff_getElem?.mpr ⟨i, him, hi⟩)

theorem inFlight_receive {m : Nat} {i : JobId} {owner : String} (hm : s.broker[m]? = some i) (h : s.InFlight j) :
    Sys.InFlight { s with broker := s.broker.eraseIdx m, execs := s.execs ++ [{ job := i, owner := owner }] }
      j := by
  rcases h with hb | ⟨e, x, hx, hj, hh⟩
  · rcases mem_eraseIdx_or hb with hm' | hb
    · rw [hm] at hm'
      obtain rfl := Option.some.inj hm'
      exact .inr ⟨s.execs.length, { job := i, owner := owner }, by simp, rfl, rfl⟩
    · exact .inl hb
  · have hlt : e < s.execs.length := (List.getElem?_eq_some_iff.mp hx).1
    exact .inr ⟨e, x, by rw [List.getElem?_append_left hlt, hx], hj, hh⟩

theorem inFlight_exec {now clock : Time} {e : Nat} {a : ExecAction}
    {x x' : Execution} {slots : Slots} (hx : s.execs[e]? = some x)
    (hnext : x.next cfg s.db s.slots now clock a = some x') (ha : a ≠ .ack) (h : s.InFlight j) :
    Sys.InFlight { s with execs := s.execs.set e x', slots := slots, broker := s.broker ++ x.requeued a }
      j := by
  rcases h with hb | ⟨e', y, hy, hj, hh⟩
  · exact .inl (List.mem_append_left _ hb)
  · by_cases hee : e' = e
    · subst hee
      obtain rfl : x = y := Option.some.inj (hx.symm.trans hy)
      obtain ⟨hjob, -, -, hhold⟩ := next_frame hnext
      by_cases hc : a = .crash
      · subst hc
        exact .inl (List.mem_append_right _ (by simp [Execution.requeued, hj]))
      · have hlt : e' < s.execs.length := (List.getElem?_eq_some_iff.mp hy).1
        refine .inr ⟨e', x', ?_, hjob.trans hj, hhold ha hc hh⟩
        show (s.execs.set e' x')[e']? = some x'
        exact List.getElem?_set_self hlt
    · refine .inr ⟨e', y, ?_, hj, hh⟩
      show (s.execs.set e x')[e']? = some y
      rw [List.getElem?_set_ne (Ne.symm hee), hy]

/-- **Messages stay in flight** until they are acknowledged. -/
theorem inFlight_control {p : Sys} (h : control cfg s l = some p)
    (hl : ∀ e, l.act ≠ .exec e .ack) (hj : s.InFlight j) : p.InFlight j := by
  rcases control_cases h with ⟨e, a, ha⟩ | ⟨-, ⟨m, owner, i, hm, rfl⟩ | ⟨hexecs, new, hnew⟩⟩
  · obtain ⟨x, x', hx, hnext, rfl⟩ := control_exec ha h
    exact inFlight_exec hx hnext (fun hack => hl e (hack ▸ ha)) hj
  · exact inFlight_receive hm hj
  · rcases hj with hb | hx
    · exact .inl (hnew ▸ List.mem_append_left _ hb)
    · exact .inr (hexecs ▸ hx)

theorem step_ack {e : Nat} (ha : l.act = .exec e .ack) (h : step cfg s l = some s') :
    ∃ x, s.execs[e]? = some x ∧ x.phase = .settled ∧
      s' = { s with execs := s.execs.set e { x with phase := .done } } := by
  obtain ⟨p, hp, rfl⟩ := step_eq_some_iff.mp h
  obtain ⟨x, x', hx, hnext, rfl⟩ := control_exec ha hp
  cases hph : x.phase <;> simp only [Execution.next, hph, reduceCtorEq, Option.some.injEq] at hnext
  subst hnext
  refine ⟨x, hx, hph, ?_⟩
  simp [Sys.dbAfter, effect, ha, hx, Execution.write, Execution.slots, Execution.requeued]

theorem step_dispatchCommit {d : Nat} (ha : l.act = .dispatchCommit d) (h : step cfg s l = some s') :
    ∃ dp, s.dispatches[d]? = some dp ∧
      s' = { s with dispatches := s.dispatches.eraseIdx d, db := s.db.deliver dp.sent } := by
  obtain ⟨p, hp, rfl⟩ := step_eq_some_iff.mp h
  cases hd : s.dispatches[d]? with
  | none => simp [control, ha, hd] at hp
  | some dp =>
    by_cases hpend : dp.pending.isEmpty = true
    · simp only [control, ha, hd, if_pos hpend, Option.some.injEq] at hp
      subst hp
      refine ⟨dp, rfl, ?_⟩
      simp [Sys.dbAfter, effect, ha, hd, Write.run]
    · simp [control, ha, hd, hpend] at hp

theorem useUpSafe_of_noneLost (h : step cfg s l = some s') (hpost : s'.NoneLost) : s.UseUpSafe l := by
  unfold Sys.UseUpSafe
  split
  · rename_i e ha
    obtain ⟨x, hx, -, rfl⟩ := step_ack ha h
    intro y job hy hj hnt
    obtain rfl : x = y := Option.some.inj (hx.symm.trans hy)
    rcases hpost x.job job hj hnt with hev | hfl | hl | hw
    · exact .inl hev
    · rcases hfl with hb | ⟨e', x', hx', hj', hh'⟩
      · exact .inr (.inl hb)
      · by_cases hee : e' = e
        · subst hee
          have hlt : e' < s.execs.length := (List.getElem?_eq_some_iff.mp hx).1
          simp only [List.getElem?_set_self hlt, Option.some.injEq] at hx'
          subst hx'
          cases hh'
        · simp only [List.getElem?_set_ne (Ne.symm hee)] at hx'
          exact .inr (.inr (.inl ⟨e', x', hee, hx', hj', hh'⟩))
    · exact .inr (.inr (.inr (.inl hl)))
    · exact .inr (.inr (.inr (.inr hw)))
  · rename_i d ha
    obtain ⟨dp, hd, rfl⟩ := step_dispatchCommit ha h
    intro dp' hd' p hp ev hev j job hab hj hnt
    obtain rfl : dp = dp' := Option.some.inj (hd.symm.trans hd')
    have hj' : (s.db.deliver dp.sent).job? j = some job := by
      unfold Db.job? at hj ⊢
      rw [jobs_deliver, hj]
    rcases hpost j job hj' hnt with ⟨i, ev', hev', hab', hdel⟩ | hfl | hrest
    · have hi : i ∉ dp.sent.map Prod.fst := fun hi => outbox_deliver_of_mem hi hev' hdel
      have hsame : s.db.outbox[i]? = some ev' := (outbox_deliver_of_not_mem hi).symm.trans hev'
      exact .inl ⟨i, ev', hi, hsame, hab', hdel⟩
    · exact .inr (.inl hfl)
    · exact .inr (.inr hrest)
  · trivial

theorem noneLost_ack {e : Nat} (ha : l.act = .exec e .ack)
    (h : step cfg s l = some s') (hinv : s.NoneLost) (hsafe : s.AckSafe e) : s'.NoneLost := by
  obtain ⟨x, hx, -, rfl⟩ := step_ack ha h
  intro j job hj hnt
  have hother : ∀ {e' : Nat} {y : Execution}, e' ≠ e → s.execs[e']? = some y →
      (s.execs.set e { x with phase := .done })[e']? = some y := by
    intro e' y hne hy
    rw [List.getElem?_set_ne (Ne.symm hne), hy]
  rcases hinv j job hj hnt with hev | hfl | hrest
  · exact .inl hev
  · rcases hfl with hb | ⟨e', y, hy, rfl, hh⟩
    · exact .inr (.inl (.inl hb))
    · by_cases hee : e' = e
      · -- the message of this job is the one that goes away
        subst hee
        obtain rfl : x = y := Option.some.inj (hx.symm.trans hy)
        rcases hsafe x job hx hj hnt with hev | hb | ⟨e'', x', hne, hx', hj', hh'⟩ | hrest
        · exact .inl hev
        · exact .inr (.inl (.inl hb))
        · exact .inr (.inl (.inr ⟨e'', x', hother hne hx', hj', hh'⟩))
        · exact .inr (.inr hrest)
      · exact .inr (.inl (.inr ⟨e', y, hother hee hy, rfl, hh⟩))
  · exact .inr (.inr hrest)

theorem noneLost_dispatchCommit {d : Nat}
    (ha : l.act = .dispatchCommit d) (h : step cfg s l = some s') (hinv : s.NoneLost)
    (hsafe : s.DeliverySafe d) : s'.NoneLost := by
  obtain ⟨dp, hd, rfl⟩ := step_dispatchCommit ha h
  intro j job hj' hnt
  have hj : s.db.job? j = some job := by
    unfold Db.job? at hj' ⊢
    rwa [jobs_deliver] at hj'
  have hkeep : ∀ {i : EventId} {ev : OutboxEvent}, i ∉ dp.sent.map Prod.fst → s.db.outbox[i]? = some ev →
      (s.db.deliver dp.sent).outbox[i]? = some ev :=
    fun hi hev => (outbox_deliver_of_not_mem hi).trans hev
  rcases hinv j job hj hnt with ⟨i, ev, hev, hab, hdel⟩ | hrest
  · by_cases hi : i ∈ dp.sent.map Prod.fst
    · -- the event of this job is one of those marked delivered
      obtain ⟨p, hp, rfl⟩ := List.mem_map.mp hi
      rcases hsafe dp hd p hp ev hev j job hab hj hnt with ⟨i', ev', hi', hev', hab', hdel'⟩ | hrest
      · exact .inl ⟨i', ev', hkeep hi' hev', hab', hdel'⟩
      · exact .inr hrest
    · exact .inl ⟨i, ev, hkeep hi hev, hab, hdel⟩
  · exact .inr hrest

/-- **One step** loses no job, if it finds what it needs when it uses something up. -/
theorem noneLost_step (h : step cfg s l = some s') (hinv : s.NoneLost) (hsafe : s.UseUpSafe l) : s'.NoneLost := by
  by_cases hack : ∃ e, l.act = .exec e .ack
  · obtain ⟨e, ha⟩ := hack
    simp only [Sys.UseUpSafe, ha] at hsafe
    exact noneLost_ack ha h hinv hsafe
  by_cases hcom : ∃ d, l.act = .dispatchCommit d
  · obtain ⟨d, ha⟩ := hcom
    simp only [Sys.UseUpSafe, ha] at hsafe
    exact noneLost_dispatchCommit ha h hinv hsafe
  have hack' : ∀ e, l.act ≠ .exec e .ack := fun e he => hack ⟨e, he⟩
  obtain ⟨p, hp, rfl⟩ := step_eq_some_iff.mp h
  intro j job' hj' hnt
  have hfl : s.InFlight j → p.InFlight j := inFlight_control hp hack'
  cases hw : effect s l with
  | none =>
    have hdb : s.dbAfter l = s.db := by simp [Sys.dbAfter, hw]
    simp only [hdb] at hj' ⊢
    rcases hinv j job' hj' hnt with hev | hm | hrest
    · exact .inl hev
    · exact .inr (.inl (hfl hm))
    · exact .inr (.inr hrest)
  | some w =>
    have hdb : s.dbAfter l = w.run l.now l.clock s.db := by simp [Sys.dbAfter, hw]
    simp only [hdb] at hj' ⊢
    have hnd : ∀ sent, w ≠ .deliver sent := by
      rintro sent rfl
      exact hcom (effect_deliver hw)
    obtain ⟨new, hnew⟩ := outbox_run l.now l.clock s.db hnd
    cases hj : s.db.job? j with
    | none => exact .inl (hasEvent_of_new_row hj hj')
    | some job =>
      have hrow : w.onRow l.now l.clock j job = job' := by
        rw [job?_run hj] at hj'
        exact Option.some.inj hj'
      rcases row_armed l.now l.clock w hj with
        ht | hl | ⟨hst, hleased, hwaiting⟩ | hev | ⟨owner, rfl⟩
      · exact absurd (hrow ▸ ht) hnt
      · exact .inr (.inr (.inl (hrow ▸ hl)))
      · rw [hrow] at hst hleased hwaiting
        rcases hinv j job hj (hst ▸ hnt) with hev | hm | hl | hwt
        · exact .inl (hasEvent_of_append hnew hev)
        · exact .inr (.inl (hfl hm))
        · exact .inr (.inr (.inl (hleased hl)))
        · exact .inr (.inr (.inr (hwaiting hwt)))
      · exact .inl hev
      · -- a release leaves the row bare, but its execution still holds the message
        obtain ⟨e, x, ha, hx, rfl, -⟩ := effect_release hw
        have hph : x.holds = true := by
          obtain ⟨y, y', hy, hnext, -⟩ := control_exec ha hp
          obtain rfl : x = y := Option.some.inj (hx.symm.trans hy)
          cases hph : x.phase <;> simp only [Execution.next, hph, reduceCtorEq] at hnext
          simp only [Execution.holds, hph]
        exact .inr (.inl (hfl (.inr ⟨e, x, hx, rfl, hph⟩)))

/-! ## Runs -/

/-- **No accepted job is lost exactly in the runs that use nothing up too early.** In a run of any length
every job that is not terminal keeps an armed mechanism in every state reached, if and only if each
acknowledgement of a task and each recording of sent events as delivered finds the job terminal or
armed by something else. -/
theorem none_lost_iff (cfg : Config) (ls : List Label) :
    (∀ t ∈ play (step cfg) init ls, t.post.NoneLost) ↔
      ∀ t ∈ play (step cfg) init ls, t.pre.UseUpSafe t.act := by
  have hrun : Run (step cfg) init _ _ := play_run init ls
  constructor
  · intro hall t ht
    exact useUpSafe_of_noneLost (hrun.step_of_mem ht) (hall t ht)
  · intro hall t ht
    have hinit : init.NoneLost := by
      intro j job hj
      cases hj
    exact (hrun.invariant hinit (fun u hu hpre =>
      noneLost_step (hrun.step_of_mem hu) hpre (hall u hu)) t ht).2

/-- Four jobs of one department are delivered at once; the fourth delivery exceeds the limit of three, its
task fails before it takes a lease, and its message is acknowledged. -/
def rejectedRun : List Label :=
  [tick 0 (.accept 0 0 "backup" (.obj []) "a"), tick 0 (.accept 0 0 "backup" (.obj []) "b"),
   tick 0 (.accept 0 0 "backup" (.obj []) "c"), tick 0 (.accept 0 0 "backup" (.obj []) "d"),
   tick 0 .dispatchSelect, tick 0 (.dispatchSend 0), tick 0 (.dispatchSend 0), tick 0 (.dispatchSend 0),
   tick 0 (.dispatchSend 0), tick 0 (.dispatchCommit 0),
   tick 0 (.receive 0 "w"), tick 0 (.receive 0 "w"), tick 0 (.receive 0 "w"), tick 0 (.receive 0 "w"),
   tick 0 (.exec 0 .count), tick 0 (.exec 0 .limit), tick 0 (.exec 1 .count), tick 0 (.exec 1 .limit),
   tick 0 (.exec 2 .count), tick 0 (.exec 2 .limit), tick 0 (.exec 3 .count), tick 0 (.exec 3 .limit),
   tick 0 (.exec 3 .ack)]

/-- Accepted jobs are lost in general: the fourth job stays accepted and nothing is armed for it. -/
theorem job_lost :
    ¬ ∀ (cfg : Config) (ls : List Label), ∀ t ∈ play (step cfg) init ls, t.post.NoneLost := by
  intro h
  have hfourth : ∀ t ∈ play (step {}) init rejectedRun, ∀ job ∈ t.post.db.job? 3,
      ¬ job.status.IsTerminal → t.post.Armed 3 job :=
    fun t ht job hj hnt => h {} rejectedRun t ht 3 job hj hnt
  exact absurd hfourth (by decide +kernel)

end Irip.Jobs
