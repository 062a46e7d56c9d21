import Irip.Jobs.Lease

/-!
# `Jobs.Cancel` — when a cancellation is honoured

`request_cancel` raises `lock_version`, so every fencing token handed out before it is stale: no commit of
an execution that was running then can find the row. Three statements do not look at the version:
`_mark_job_failed`, `_update_job_status`, and the lease UPDATE, which finds the row again once a retry scan
that selected it earlier has put it back into the queue.
-/

namespace Irip.Jobs

open Table (Update)
open Runs

/-! ## Transactions -/

/-- The statuses a cancelled job must not take. -/
def JobStatus.IsUncancelled (s : JobStatus) : Prop :=
  s ∈ [JobStatus.succeeded, .failed, .running, .retryWait]

instance : DecidablePred JobStatus.IsUncancelled := fun s =>
  inferInstanceAs (Decidable (s ∈ [JobStatus.succeeded, .failed, .running, .retryWait]))

@[simp] theorem isUncancelled_iff {s : JobStatus} :
    s.IsUncancelled ↔ s = .succeeded ∨ s = .failed ∨ s = .running ∨ s = .retryWait := by
  simp [JobStatus.IsUncancelled]

/-- The transaction does not undo the cancellation of a row such as `job`. -/
def Write.SparesCancelled (now : Time) : Write → Job → Prop
  | .acquire _ _ _, job => ¬ (job.status.IsLeaseable ∧ JobRepository.leaseAvailable now job = true)
  | .markJobFailed _ _, _ => False
  | .updateJobStatus _ status, _ => statusMap status = .cancelled
  | _, _ => True

theorem commit_cond_of_stale {now clock : Time} {j : JobId} {v attempt : Nat} {c : Commit} {job : Job}
    (hv : v < job.lockVersion) : ((Write.commit j v attempt c).stmt now clock).2.cond job = false := by
  have hver : (job.lockVersion == v) = false := by
    rw [beq_eq_false_iff_ne]
    omega
  cases c with
  | success result | failure error => simp only [Write.stmt, JobRepository.updateStatus, hver, Bool.false_and]
  | retry error => exact hver

theorem statusMap_uncancelled_iff (status : String) :
    ¬ (statusMap status).IsUncancelled ↔ statusMap status = .cancelled := by
  unfold statusMap
  split <;> simp

/-- **What each UPDATE does to a cancelled row.** A commit is taken to be stale. -/
theorem uncancelled_onRow {now clock : Time} {w : Write} {j : JobId} {job : Job}
    (hjob : ¬ job.status.IsUncancelled) (hmem : j ∈ (w.stmt now clock).1)
    (hstale : ∀ i v attempt c, w = .commit i v attempt c → v < job.lockVersion) :
    ¬ (w.onRow now clock j job).status.IsUncancelled ↔ w.SparesCancelled now job := by
  simp only [Write.onRow, if_pos hmem]
  cases w with
  | accept _ _ _ _ _ | deliver _ => cases hmem
  | renew i owner expiresAt | release i owner =>
    refine iff_of_true ?_ trivial
    rcases Update.apply_cases ((Write.stmt now clock _).2) job with ⟨-, happ⟩ | ⟨-, happ⟩ <;>
      rw [happ] <;> exact hjob
  | reap js =>
    refine iff_of_true ?_ trivial
    have hc : (JobRepository.reapUpdate now).cond job = false := by
      simp only [isUncancelled_iff, not_or] at hjob
      simpa [JobRepository.reapUpdate] using hjob.2.2.1
    show ¬ ((JobRepository.reapUpdate now).apply job).status.IsUncancelled
    rw [Update.apply_of_not_cond hc]
    exact hjob
  | requestCancel i seen actor =>
    refine iff_of_true ?_ trivial
    rcases Update.apply_cases ((Write.requestCancel i seen actor).stmt now clock).2 job with
      ⟨-, happ⟩ | ⟨-, happ⟩
    · rw [happ]
      simp [Write.stmt, JobService.requestCancelStmt]
    · rw [happ]
      exact hjob
  | requeue i =>
    refine iff_of_true ?_ trivial
    show ¬ ((retryWaitStmt now).apply job).status.IsUncancelled
    rw [Update.apply_of_cond rfl]
    simp [retryWaitStmt]
  | commit i v attempt c =>
    refine iff_of_true ?_ trivial
    rw [Update.apply_of_not_cond (commit_cond_of_stale (hstale i v attempt c rfl))]
    exact hjob
  | acquire i owner expiresAt =>
    have hcond : (JobRepository.acquireLeaseWithFencing now owner expiresAt).cond job = true ↔
        job.status.IsLeaseable ∧ JobRepository.leaseAvailable now job = true := by
      simp [JobRepository.acquireLeaseWithFencing]
    show ¬ ((JobRepository.acquireLeaseWithFencing now owner expiresAt).apply job).status.IsUncancelled ↔
      ¬ _
    rcases (JobRepository.acquireLeaseWithFencing now owner expiresAt).apply_cases job with
      ⟨hc, happ⟩ | ⟨hc, happ⟩
    · refine iff_of_false ?_ (not_not.mpr (hcond.mp hc))
      rw [happ]
      simp [JobRepository.acquireLeaseWithFencing]
    · refine iff_of_true ?_ (fun h => absurd (hcond.mpr h) (by simp [hc]))
      rw [happ]
      exact hjob
  | markJobFailed i error =>
    refine iff_of_false ?_ not_false
    show ¬ ¬ ((markJobFailedStmt now error).apply job).status.IsUncancelled
    rw [Update.apply_of_cond rfl]
    simp [markJobFailedStmt]
  | updateJobStatus i status =>
    show ¬ ((updateJobStatusStmt now status).apply job).status.IsUncancelled ↔ _
    rw [Update.apply_of_cond rfl]
    exact statusMap_uncancelled_iff status

/-! ## Steps -/

/-- The step commits a `request_cancel` of the job with key `j`. -/
def Sys.Cancels (s : Sys) (l : Label) (j : JobId) : Prop :=
  ∃ seen actor, effect s l = some (.requestCancel j seen actor) ∧
    s.db.matched j (JobService.requestCancelStmt l.now seen.lockVersion) = true

/-- The job with key `j` has a status a cancelled job must not take. -/
def Db.Uncancelled (db : Db) (j : JobId) : Prop := ∃ st, db.status? j = some st ∧ st.IsUncancelled

/-- The step does not undo the cancellation of the job with key `j`: it neither marks the job failed, nor
writes it a status other than cancelled for the flow engine, nor does its lease UPDATE find it. -/
def Sys.SparesCancelled (s : Sys) (l : Label) (j : JobId) : Prop :=
  ∀ w job, effect s l = some w → j ∈ (w.stmt l.now l.clock).1 → s.db.job? j = some job →
    w.SparesCancelled l.now job

/-- **The invariant of a cancelled job.** Every token handed out for it is stale. -/
structure CancelInv (j : JobId) (s : Sys) : Prop where
  row : ∃ job, s.db.job? j = some job ∧ ¬ job.status.IsUncancelled ∧
    ∀ e token owner, s.Granted e j token owner → token < job.lockVersion

theorem effect_commit {s : Sys} {l : Label} {j : JobId} {v attempt : Nat} {c : Commit}
    (h : effect s l = some (.commit j v attempt c)) :
    (∃ e owner, s.Granted e j v owner) ∧ ∀ e, l.act ≠ .exec e .acquire := by
  rcases effect_cases h with ⟨e, a, x, ha, hx, hw⟩ | ⟨_, _, _, _, hw⟩ | ⟨_, _, _, _, _, hw⟩ |
    ⟨_, _, _, hw⟩ | ⟨_, hw⟩ | ⟨_, hw⟩ | ⟨_, _, hw⟩
  · cases a with
    | commit =>
      simp only [Execution.write] at hw
      split at hw
      · rename_i token _ htok
        simp only [Option.some.injEq, Write.commit.injEq] at hw
        obtain ⟨rfl, rfl, -, -⟩ := hw
        exact ⟨⟨e, x.owner, x, hx, rfl, htok, rfl⟩, fun e' => by simp [ha]⟩
      · cases hw
    | mark =>
      simp only [Execution.write] at hw
      split at hw
      · obtain ⟨m, -, hm⟩ := Option.map_eq_some_iff.mp hw
        cases hm
      · cases hw
    | release =>
      simp only [Execution.write] at hw
      split at hw <;> cases hw
    | _ => simp [Execution.write] at hw
  all_goals cases hw

/-- **A cancel request establishes the invariant**: the tokens were at most the version it has raised. -/
theorem cancelInv_of_cancels {cfg : Config} {s s' : Sys} {l : Label} {j : JobId}
    (h : step cfg s l = some s') (hinv : LeaseInv s) (hc : s.Cancels l j) : CancelInv j s' := by
  obtain ⟨seen, actor, hw, hm⟩ := hc
  obtain ⟨job, hj, hcond⟩ := matched_iff.mp hm
  have hrow : s.rowAfter l j job = (JobService.requestCancelStmt l.now seen.lockVersion).set job := by
    simp only [Sys.rowAfter, hw, Write.onRow, Write.stmt, List.mem_singleton, if_true]
    exact Update.apply_of_cond hcond
  have hsame : ∀ e token owner, s'.Granted e j token owner → s.Granted e j token owner := by
    rcases granted_step h with ⟨-, hsame⟩ | ⟨_, _, _, _, _, hw', -⟩
    · exact fun e token owner => (hsame e j token owner).mp
    · rw [hw] at hw'
      cases hw'
  refine ⟨_, job?_step h hj, ?_, ?_⟩
  · rw [hrow]
    simp [JobService.requestCancelStmt]
  · intro e token owner hg
    obtain ⟨job', hj', hle⟩ := hinv.known (hsame e token owner hg)
    obtain rfl : job = job' := Option.some.inj (hj.symm.trans hj')
    rw [hrow]
    exact Nat.lt_succ_of_le hle

/-- **One step from a cancelled job**: the cancellation is undone exactly by the steps that do not spare
it, and the others keep the invariant. -/
theorem cancelInv_step {cfg : Config} {s s' : Sys} {l : Label} {j : JobId} (h : step cfg s l = some s')
    (hinv : CancelInv j s) :
    (¬ s'.db.Uncancelled j ↔ s.SparesCancelled l j) ∧ (s.SparesCancelled l j → CancelInv j s') := by
  obtain ⟨job, hj, hstatus, htokens⟩ := hinv.row
  have hj' := job?_step h hj
  have hunc : s'.db.Uncancelled j ↔ (s.rowAfter l j job).status.IsUncancelled := by
    simp only [Db.Uncancelled, Db.status?, hj', Option.map_some, Option.some.injEq, exists_eq_left']
  have hiff : ¬ (s.rowAfter l j job).status.IsUncancelled ↔ s.SparesCancelled l j := by
    unfold Sys.rowAfter Sys.SparesCancelled
    cases hw : effect s l with
    | none => exact iff_of_true hstatus (fun w _ hw' => by cases hw')
    | some w =>
      by_cases hmem : j ∈ (w.stmt l.now l.clock).1
      · rw [uncancelled_onRow hstatus hmem]
        · constructor
          · intro hsp w' job' hw' _ hj''
            obtain rfl := Option.some.inj hw'
            obtain rfl := Option.some.inj (hj.symm.trans hj'')
            exact hsp
          · intro hsp
            exact hsp w job rfl hmem hj
        · rintro i v attempt c rfl
          obtain rfl := List.mem_singleton.mp hmem
          obtain ⟨⟨e, owner, hg⟩, -⟩ := effect_commit hw
          exact htokens e v owner hg
      · simp only [Write.onRow, if_neg hmem]
        refine iff_of_true hstatus ?_
        intro w' _ hw' hmem' _
        obtain rfl := Option.some.inj hw'
        exact absurd hmem' hmem
  refine ⟨(not_congr hunc).trans hiff, fun hsp => ⟨_, hj', hiff.mpr hsp, ?_⟩⟩
  have hver : job.lockVersion ≤ (s.rowAfter l j job).lockVersion := by
    obtain ⟨job', hjob', hle⟩ := version_step h hj
    obtain rfl := Option.some.inj (hj'.symm.trans hjob')
    exact hle
  intro e token owner hg
  refine Nat.lt_of_lt_of_le ?_ hver
  rcases granted_step h with ⟨-, hsame⟩ | ⟨e₀, j₀, owner₀, expiresAt₀, job₀, hw, hj₀, hc, -, hgr⟩
  · exact htokens e token owner ((hsame _ _ _ _).mp hg)
  · rw [hgr] at hg
    by_cases he : e = e₀
    · -- the lease UPDATE has found the cancelled row, which the step was to spare
      rw [if_pos he] at hg
      obtain ⟨rfl, -, -⟩ := hg
      have hno := hsp _ job₀ hw (List.mem_singleton.mpr rfl) hj₀
      simp only [JobRepository.acquireLeaseWithFencing, Bool.and_eq_true, decide_eq_true_eq] at hc
      exact absurd hc hno
    · rw [if_neg he] at hg
      exact htokens e token owner hg

/-! ## Runs -/

/-- **A cancellation is honoured exactly in the runs whose later steps spare it.** In a run of any length,
no job whose `request_cancel` has committed ever takes the status succeeded, failed, running or
retry_wait afterwards, if and only if after each such commit no step marks that job failed, writes it a
status other than cancelled for the flow engine, or leases it: finds it in a leaseable status without
a live lease. -/
theorem cancel_honoured_iff (cfg : Config) (ls : List Label) (j : JobId) :
    After (fun t => t.pre.Cancels t.act j) (fun t => ¬ t.post.db.Uncancelled j)
        (play (step cfg) init ls) ↔
      After (fun t => t.pre.Cancels t.act j) (fun t => t.pre.SparesCancelled t.act j)
        (play (step cfg) init ls) :=
  (play_run init ls).after_iff (G := LeaseInv) (I := CancelInv j) leaseInv_step
    (fun h hinv hc => cancelInv_of_cancels h hinv hc) (fun h hinv => cancelInv_step h hinv) leaseInv_init

instance (s : Sys) (l : Label) (j : JobId) : Decidable (s.Cancels l j) :=
  match h : effect s l with
  | some (.requestCancel i seen actor) =>
    if hm : i = j ∧ s.db.matched j (JobService.requestCancelStmt l.now seen.lockVersion) = true then
      .isTrue ⟨seen, actor, hm.1 ▸ h, hm.2⟩
    else
      .isFalse (by
        rintro ⟨seen', actor', hw, hm'⟩
        rw [h] at hw
        simp only [Option.some.injEq, Write.requestCancel.injEq] at hw
        obtain ⟨rfl, rfl, -⟩ := hw
        exact hm ⟨rfl, hm'⟩)
  | some (.accept ..) | some (.acquire ..) | some (.renew ..) | some (.release ..) | some (.reap _)
  | some (.requeue _) | some (.commit ..) | some (.markJobFailed ..) | some (.updateJobStatus ..)
  | some (.deliver _) | none =>
    .isFalse (by rintro ⟨_, _, hw, _⟩; rw [h] at hw; cases hw)

instance (db : Db) (j : JobId) : Decidable (db.Uncancelled j) :=
  match h : db.status? j with
  | none => .isFalse (by rintro ⟨st, hst, -⟩; rw [h] at hst; cases hst)
  | some st =>
    if ht : st.IsUncancelled then .isTrue ⟨st, h, ht⟩
    else .isFalse (by rintro ⟨st', hst, ht'⟩; rw [h] at hst; cases hst; exact ht ht')

/-- A user cancels a flow job while its handler runs; the engine then writes the outcome of the run. -/
def cancelledFlowRun : List Label :=
  [tick 0 (.accept 0 0 "flow_execute" (.obj []) "k"),
   tick 0 .dispatchSelect, tick 0 (.dispatchSend 0), tick 0 (.dispatchCommit 0), tick 0 (.receive 0 "w"),
   tick 0 (.exec 0 .count), tick 0 (.exec 0 .limit), tick 0 (.exec 0 .acquire), tick 0 (.exec 0 .read),
   tick 1 (.cancelSelect 0 7), tick 1 (.cancelUpdate 0),
   tick 2 (.updateJobStatus 0 "succeeded")]

/-- Cancellations are not honoured in general: the cancelled job becomes succeeded. -/
theorem cancel_overwritten :
    ¬ ∀ (cfg : Config) (ls : List Label) (j : JobId),
      After (fun t => t.pre.Cancels t.act j) (fun t => ¬ t.post.db.Uncancelled j)
        (play (step cfg) init ls) := by
  intro h
  exact absurd (h {} cancelledFlowRun 0) (by decide +kernel)

end Irip.Jobs
