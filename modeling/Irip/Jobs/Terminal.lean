import Irip.Jobs.System

/-!
# `Jobs.Terminal` — when terminal job states absorb

`TERMINAL_STATUSES` is documented as the set of states that are never left. Most statements that write the
status column respect it by their own WHERE clause; five do not look. The five are safe exactly when the
rows they find are not terminal, or already carry the status they write.
-/

namespace Irip.Jobs

open Table (Update)
open Runs

/-! ## Transactions -/

/-- The transaction does not move a row such as `job` out of a terminal status. Statements with a guard of
their own on the status are always safe. -/
def Write.SparesTerminal : Write → Job → Prop
  | .requeue _, job => ¬ job.status.IsTerminal
  | .requestCancel _ seen _, job => job.lockVersion = seen.lockVersion → ¬ job.status.IsTerminal
  | .commit _ v _ (.retry _), job => job.lockVersion = v → ¬ job.status.IsTerminal
  | .markJobFailed _ _, job => job.status.IsTerminal → job.status = .failed
  | .updateJobStatus _ status, job => job.status.IsTerminal → job.status = statusMap status
  | _, _ => True

variable {job : Job}

theorem not_terminal_iff_of_set {u : Update Job} {P : Prop} (hc : u.cond job = true ↔ P)
    (hs : ¬ (u.set job).status.IsTerminal) :
    (job.status.IsTerminal → (u.apply job).status = job.status) ↔ (P → ¬ job.status.IsTerminal) := by
  constructor
  · intro h hp ht
    have heq := h ht
    rw [Update.apply_of_cond (hc.mpr hp)] at heq
    exact hs (heq ▸ ht)
  · intro h ht
    have hn : u.cond job = false := by
      by_contra hne
      exact h (hc.mp (by simpa using hne)) ht
    rw [Update.apply_of_not_cond hn]

theorem keeps_of_not_cond {u : Update Job} (h : job.status.IsTerminal → u.cond job = false) :
    job.status.IsTerminal → (u.apply job).status = job.status := by
  intro ht
  rw [Update.apply_of_not_cond (h ht)]

theorem keeps_of_set {u : Update Job} (h : (u.set job).status = job.status) :
    job.status.IsTerminal → (u.apply job).status = job.status := by
  intro _
  by_cases hc : u.cond job = true
  · rw [Update.apply_of_cond hc, h]
  · rw [Update.apply_of_not_cond (by simpa using hc)]

theorem updateStatus_cond_of_terminal {now : Time} {st : JobStatus} {r e : Option Json} {v : Option Nat}
    (hst : st.IsTerminal) (ht : job.status.IsTerminal) :
    (JobRepository.updateStatus now st r e v).cond job = false := by
  have hdec : decide job.status.IsTerminal = true := by simpa using ht
  simp only [JobRepository.updateStatus, if_pos hst, hdec, Bool.not_true, Bool.and_false]

theorem acquire_cond_of_terminal {now expiresAt : Time} {owner : String} (ht : job.status.IsTerminal) :
    (JobRepository.acquireLeaseWithFencing now owner expiresAt).cond job = false := by
  have hl : ¬ job.status.IsLeaseable := by
    rcases isTerminal_iff.mp ht with h | h | h <;> simp [h]
  have hdec : decide job.status.IsLeaseable = false := by simpa using hl
  simp only [JobRepository.acquireLeaseWithFencing, hdec, Bool.false_and]

/-- **What each UPDATE does to a terminal row.** -/
theorem apply_status_iff (now clock : Time) (w : Write) (job : Job) :
    (job.status.IsTerminal → ((w.stmt now clock).2.apply job).status = job.status) ↔
      w.SparesTerminal job := by
  cases w with
  | accept d u kind payload key | deliver sent | renew j owner expiresAt | release j owner =>
      exact iff_of_true (keeps_of_set rfl) trivial
  | acquire j owner expiresAt =>
    exact iff_of_true (keeps_of_not_cond acquire_cond_of_terminal) trivial
  | reap js =>
    refine iff_of_true (keeps_of_not_cond ?_) trivial
    intro ht
    rcases isTerminal_iff.mp ht with h | h | h <;> simp [Write.stmt, JobRepository.reapUpdate, h]
  | requestCancel j seen actor =>
    refine not_terminal_iff_of_set ?_ (by simp [Write.stmt, JobService.requestCancelStmt])
    simp [Write.stmt, JobService.requestCancelStmt]
  | requeue j =>
    rw [not_terminal_iff_of_set (P := True) (by simp [Write.stmt, retryWaitStmt])
      (by simp [Write.stmt, retryWaitStmt])]
    exact ⟨fun h => h trivial, fun h _ => h⟩
  | commit j v attempt c =>
    cases c with
    | success result =>
      have hst : JobStatus.succeeded.IsTerminal := by decide
      refine iff_of_true (keeps_of_not_cond ?_) trivial
      intro ht
      show (JobRepository.updateStatus now .succeeded result none (some v)).cond job = false
      exact updateStatus_cond_of_terminal hst ht
    | failure error =>
      have hst : JobStatus.failed.IsTerminal := by decide
      refine iff_of_true (keeps_of_not_cond ?_) trivial
      intro ht
      show (JobRepository.updateStatus now .failed none (some error.toDict) (some v)).cond job = false
      exact updateStatus_cond_of_terminal hst ht
    | retry error =>
      refine not_terminal_iff_of_set ?_ (by simp [Write.stmt, commitRetryStmt])
      simp [Write.stmt, commitRetryStmt]
  | markJobFailed j error =>
    have h : ((Write.markJobFailed j error).stmt now clock).2.apply job
        = (markJobFailedStmt now error).set job := Update.apply_of_cond rfl
    rw [h]
    exact forall_congr' (fun _ => eq_comm)
  | updateJobStatus j status =>
    have h : ((Write.updateJobStatus j status).stmt now clock).2.apply job
        = (updateJobStatusStmt now status).set job := Update.apply_of_cond rfl
    rw [h]
    exact forall_congr' (fun _ => eq_comm)

/-! ## Steps -/

/-- The job with key `j` is in a terminal status. -/
def Db.Terminated (db : Db) (j : JobId) : Prop :=
  ∃ st, db.status? j = some st ∧ st.IsTerminal

/-- Every row the step's UPDATE is aimed at is one the transaction spares. -/
def Sys.SparesTerminal (s : Sys) (l : Label) : Prop :=
  ∀ w, effect s l = some w → ∀ j ∈ (w.stmt l.now l.clock).1, ∀ job, s.db.job? j = some job →
    w.SparesTerminal job

theorem status?_step {cfg : Config} {s s' : Sys} {l : Label} (h : step cfg s l = some s') {j : JobId}
    (hj : s.db.job? j = some job) : s'.db.status? j = some (s.rowAfter l j job).status := by
  unfold Db.status?
  rw [job?_step h hj]
  rfl

theorem terminated_iff {db : Db} {j : JobId} :
    db.Terminated j ↔ ∃ job, db.job? j = some job ∧ job.status.IsTerminal := by
  unfold Db.Terminated Db.status?
  constructor
  · rintro ⟨st, hst, ht⟩
    obtain ⟨job, hj, rfl⟩ := Option.map_eq_some_iff.mp hst
    exact ⟨job, hj, ht⟩
  · rintro ⟨job, hj, ht⟩
    exact ⟨job.status, by rw [hj]; rfl, ht⟩

/-- **One step** keeps every terminal status exactly when its transaction spares the rows it finds. -/
theorem spares_iff_step {cfg : Config} {s s' : Sys} {l : Label} (h : step cfg s l = some s') :
    (∀ j, s.db.Terminated j → s'.db.status? j = s.db.status? j) ↔ s.SparesTerminal l := by
  constructor
  · intro hkeep w hw j hjs job hj
    rw [← apply_status_iff l.now l.clock w job]
    intro ht
    have heq := hkeep j (terminated_iff.mpr ⟨job, hj, ht⟩)
    rw [status?_step h hj] at heq
    simp only [Db.status?, hj, Sys.rowAfter, hw, Write.onRow, if_pos hjs, Option.map_some,
      Option.some.injEq] at heq
    exact heq
  · intro hsp j hterm
    obtain ⟨job, hj, ht⟩ := terminated_iff.mp hterm
    rw [status?_step h hj]
    simp only [Db.status?, hj, Option.map_some, Option.some.injEq]
    unfold Sys.rowAfter
    cases hw : effect s l with
    | none => rfl
    | some w =>
      simp only [Write.onRow]
      by_cases hjs : j ∈ (w.stmt l.now l.clock).1
      · rw [if_pos hjs]
        exact (apply_status_iff l.now l.clock w job).mpr (hsp w hw j hjs job hj) ht
      · rw [if_neg hjs]

/-! ## Runs -/

/-- **Terminal states absorb exactly in the runs whose unguarded writers find no terminal row.** In a run
of any length, no job ever leaves a terminal status if and only if every step of the run spares the
rows it finds: the retry scan finds a row that is not terminal; a cancel request and a retry commit
whose `lock_version` still matches find a row that is not terminal; `_mark_job_failed` finds a terminal
row only if it is failed, and `_update_job_status` only if it has the status it writes. -/
theorem terminal_absorbing_iff (cfg : Config) (ls : List Label) :
    (∀ j, Frozen (fun s : Sys => s.db.Terminated j) (fun s => s.db.status? j) (play (step cfg) init ls)) ↔
      ∀ t ∈ play (step cfg) init ls, t.pre.SparesTerminal t.act := by
  have hrun : Run (step cfg) init _ _ := play_run init ls
  have hdep : ∀ j {s s' : Sys}, s.db.Terminated j → s'.db.status? j = s.db.status? j →
      s'.db.Terminated j := by
    rintro j s s' ⟨st, hst, ht⟩ heq
    exact ⟨st, heq.trans hst, ht⟩
  constructor
  · intro hall t ht
    rw [← spares_iff_step (hrun.step_of_mem ht)]
    intro j
    exact (hrun.frozen_iff (hdep j)).mp (hall j) t ht
  · intro hall j
    rw [hrun.frozen_iff (hdep j)]
    intro t ht
    exact (spares_iff_step (hrun.step_of_mem ht)).mpr (hall t ht) j

/-- The retry scan selects a waiting job, the job runs to success, and the scan's UPDATE queues it again. -/
def reviveRun : List Label :=
  [tick 0 (.accept 0 0 "backup" (.obj []) "k"),
   tick 0 .dispatchSelect, tick 0 (.dispatchSend 0), tick 0 (.dispatchCommit 0), tick 0 (.receive 0 "w"),
   tick 0 (.exec 0 .count), tick 0 (.exec 0 .limit), tick 0 (.exec 0 .acquire), tick 0 (.exec 0 .read),
   tick 0 (.exec 0 (.finish (.exception "timeout"))), tick 0 (.exec 0 .commit), tick 0 (.exec 0 .release),
   tick 2000000 .scanSelect,
   tick 2000000 .dispatchSelect, tick 2000000 (.dispatchSend 0), tick 2000000 (.dispatchCommit 0),
   tick 2000000 (.receive 0 "v"),
   tick 2000000 (.exec 1 .count), tick 2000000 (.exec 1 .limit), tick 2000000 (.exec 1 .acquire),
   tick 2000000 (.exec 1 .read), tick 2000000 (.exec 1 (.finish (.returned none))),
   tick 2000000 (.exec 1 .commit),
   tick 2000000 (.scanUpdate 0)]

instance (db : Db) (j : JobId) : Decidable (db.Terminated j) :=
  match h : db.status? j with
  | none => .isFalse (by rintro ⟨st, hst, -⟩; rw [h] at hst; cases hst)
  | some st =>
    if ht : st.IsTerminal then .isTrue ⟨st, h, ht⟩
    else .isFalse (by rintro ⟨st', hst, ht'⟩; rw [h] at hst; cases hst; exact ht ht')

/-- Terminal statuses do not absorb in general: the succeeded job becomes queued. -/
theorem terminal_left :
    ¬ ∀ (cfg : Config) (ls : List Label), ∀ j,
      Frozen (fun s : Sys => s.db.Terminated j) (fun s => s.db.status? j) (play (step cfg) init ls) := by
  intro h
  exact absurd (h {} reviveRun 0) (by decide +kernel)

end Irip.Jobs
