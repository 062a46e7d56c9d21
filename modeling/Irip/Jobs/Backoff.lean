import Irip.Jobs.System

/-!
# `Jobs.Backoff` — when a waiting job runs too early

`run_after` is documented as the instant from which a waiting job may be acquired, and the retry scan
obeys it. The lease UPDATE does not read it: between the retry commit and `run_after` it is only a lease
that is still held which keeps the job from running.
-/

namespace Irip.Jobs

open Table (Update)
open Runs

/-! ## Transactions -/

theorem running_onRow {now clock : Time} {w : Write} {j : JobId} {job : Job}
    (hbefore : job.status ≠ .running) (hafter : (w.onRow now clock j job).status = .running) :
    ∃ owner expiresAt, w = .acquire j owner expiresAt ∧
      (JobRepository.acquireLeaseWithFencing now owner expiresAt).cond job = true := by
  unfold Write.onRow at hafter
  by_cases hjs : j ∈ (w.stmt now clock).1
  · rw [if_pos hjs] at hafter
    rcases (w.stmt now clock).2.apply_cases job with ⟨hc, happ⟩ | ⟨-, happ⟩
    · rw [happ] at hafter
      cases w with
      | acquire i owner expiresAt =>
        obtain rfl := List.mem_singleton.mp hjs
        exact ⟨owner, expiresAt, rfl, hc⟩
      | renew i owner expiresAt | release i owner | accept d u kind payload key | deliver sent =>
          exact absurd hafter hbefore
      | commit i v attempt c => cases c <;> cases hafter
      | updateJobStatus i status =>
        have hmap : statusMap status = .running := hafter
        unfold statusMap at hmap
        split at hmap <;> cases hmap
      | _ => cases hafter
    · exact absurd (happ ▸ hafter) hbefore
  · rw [if_neg hjs] at hafter
    exact absurd hafter hbefore

/-! ## Runs -/

/-- The step moves no job from `retry_wait` to `running` before its `run_after`. -/
def RespectsBackoff (t : Transition Sys Label) : Prop :=
  ∀ j job job', t.pre.db.job? j = some job → t.post.db.job? j = some job' →
    job.status = .retryWait → job'.status = .running → ∀ due, job.runAfter = some due → due ≤ t.act.now

/-- A lease UPDATE that reaches a waiting job before its `run_after` finds the lease still held. -/
def Sys.HeldUntilDue (s : Sys) (l : Label) : Prop :=
  ∀ j owner expiresAt job due, effect s l = some (.acquire j owner expiresAt) → s.db.job? j = some job →
    job.status = .retryWait → job.runAfter = some due → l.now < due →
      JobRepository.leaseAvailable l.now job = false

/-- **Back-off is respected exactly in the runs whose early deliveries find the lease held.** In a run of
any length and at any clock values, no job moves from `retry_wait` to `running` before its `run_after`,
if and only if every lease UPDATE that reaches a job in `retry_wait` before its `run_after` finds a
lease owner whose lease has not expired. -/
theorem backoff_respected_iff (cfg : Config) (ls : List Label) :
    (∀ t ∈ play (step cfg) init ls, RespectsBackoff t) ↔
      ∀ t ∈ play (step cfg) init ls, t.pre.HeldUntilDue t.act := by
  have hrun : Run (step cfg) init _ _ := play_run init ls
  constructor
  · intro hall t ht j owner expiresAt job due hw hj hst hdue hlt
    by_contra hav
    have hcond : (JobRepository.acquireLeaseWithFencing t.act.now owner expiresAt).cond job = true := by
      have hl : job.status.IsLeaseable := isLeaseable_iff.mpr (.inr (.inr hst))
      simp only [JobRepository.acquireLeaseWithFencing, hl, decide_true, Bool.true_and]
      simpa using hav
    have hrow := job?_step (hrun.step_of_mem ht) hj
    have hset : t.pre.rowAfter t.act j job
        = (JobRepository.acquireLeaseWithFencing t.act.now owner expiresAt).set job := by
      simp only [Sys.rowAfter, hw, Write.onRow, Write.stmt, List.mem_singleton, if_true]
      exact Update.apply_of_cond hcond
    have hle : due ≤ t.act.now := hall t ht j job _ hj hrow hst (by rw [hset]; rfl) due hdue
    exact Int.not_le.mpr hlt hle
  · intro hall t ht j job job' hj hj' hst hrunning due hdue
    by_contra hlt
    have hrow := job?_step (hrun.step_of_mem ht) hj
    obtain rfl := Option.some.inj (hrow.symm.trans hj')
    unfold Sys.rowAfter at hrunning
    cases hw : effect t.pre t.act with
    | none =>
      rw [hw] at hrunning
      exact absurd (hst.symm.trans hrunning) (by decide)
    | some w =>
      rw [hw] at hrunning
      obtain ⟨owner, expiresAt, rfl, hcond⟩ := running_onRow (by rw [hst]; decide) hrunning
      have hheld := hall t ht j owner expiresAt job due hw hj hst hdue (Int.not_le.mp hlt)
      simp only [JobRepository.acquireLeaseWithFencing, hheld, Bool.and_false] at hcond
      cases hcond

/-- The first attempt fails at 0 s and is due at 1 s; the event of the retry commit is dispatched at once. -/
def earlyRun : List Label :=
  [tick 0 (.accept 0 0 "backup" (.obj []) "k"),
   tick 0 .dispatchSelect, tick 0 (.dispatchSend 0), tick 0 (.dispatchCommit 0), tick 0 (.receive 0 "w"),
   tick 0 (.exec 0 .count), tick 0 (.exec 0 .limit), tick 0 (.exec 0 .acquire), tick 0 (.exec 0 .read),
   tick 0 (.exec 0 (.finish (.exception "timeout"))), tick 0 (.exec 0 .commit), tick 0 (.exec 0 .release),
   tick 0 .dispatchSelect, tick 0 (.dispatchSend 0), tick 0 (.dispatchCommit 0), tick 0 (.receive 0 "w"),
   tick 0 (.exec 1 .count), tick 0 (.exec 1 .limit), tick 0 (.exec 1 .acquire)]

/-- Back-off is not respected in general: the job runs again at 0 s. -/
theorem early_retry :
    ¬ ∀ (cfg : Config) (ls : List Label), ∀ t ∈ play (step cfg) init ls, RespectsBackoff t := by
  intro h
  have hearly : ∀ t ∈ play (step {}) init earlyRun, ∀ job ∈ t.pre.db.job? 0, ∀ job' ∈ t.post.db.job? 0,
      job.status = .retryWait → job'.status = .running → ∀ due ∈ job.runAfter, due ≤ t.act.now :=
    fun t ht job hj job' hj' => h {} earlyRun t ht 0 job job' hj hj'
  exact absurd hearly (by decide +kernel)

end Irip.Jobs
