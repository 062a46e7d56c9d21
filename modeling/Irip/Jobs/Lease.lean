import Irip.Jobs.System

/-!
# `Jobs.Lease` — what a stale execution leaves behind, and when it touches a later lease

The fencing token is the `lock_version` an execution saw when it took the lease. All three commits put it
into the WHERE clause of their UPDATE, so a stale commit changes no job; `_commit_retry` inserts its event
in the same transaction without looking at what the UPDATE has found.

Commits carry a fencing token; renewing and releasing a lease is keyed by the owner string. The owner is
the worker's name, so two executions of one job on the same worker share it.

The tokens order the executions of a job: the lease UPDATE hands out the row's next version, so a later
execution has a larger token, and the lease, while there is one, is held by the execution with the largest.
-/

namespace Irip.Jobs

open Table (Update)
open Runs

/-- The commit the step runs, if it runs one whose token is no longer the job's `lock_version`. -/
def Sys.staleCommit? (s : Sys) (l : Label) : Option Commit :=
  match effect s l with
  | some (.commit j lockVersion _ c) =>
    match s.db.job? j with
    | some job => if job.lockVersion = lockVersion then none else some c
    | none => none
  | _ => none

variable {l : Label} {s p s' : Sys} {job : Job} {j : JobId} {e token : Nat} {owner : String} {cfg : Config}

theorem staleCommit_eq_some {c : Commit} (h : s.staleCommit? l = some c) :
    ∃ j v attempt job, effect s l = some (.commit j v attempt c) ∧ s.db.job? j = some job ∧ job.lockVersion ≠ v := by
  unfold Sys.staleCommit? at h
  split at h
  · rename_i j v attempt c' hw
    cases hj : s.db.job? j with
    | none => simp [hj] at h
    | some job =>
      by_cases hv : job.lockVersion = v
      · simp [hj, hv] at h
      · simp only [hj, if_neg hv, Option.some.injEq] at h
        subst h
        exact ⟨j, v, attempt, job, hw, hj, hv⟩
  · cases h

/-! ## Transactions -/

theorem update_of_cond_false {db : Db} {u : Update Job}
    (hj : db.job? j = some job) (hc : u.cond job = false) : db.update [j] u = db := by
  apply update_of_not_matched
  cases hm : db.matched j u with
  | false => rfl
  | true =>
    obtain ⟨job', hj', hc'⟩ := matched_iff.mp hm
    obtain rfl : job = job' := Option.some.inj (hj.symm.trans hj')
    exact absurd hc' (by simp [hc])

/-- **A stale commit** changes no job. A stale success or failure leaves the whole database as it was; a
stale retry adds its event. -/
theorem run_commit_of_stale {now clock : Time} {db : Db} {v attempt : Nat}
    (hj : db.job? j = some job) (hv : job.lockVersion ≠ v) (c : Commit) :
    (c.run now clock db j v attempt).jobs = db.jobs ∧
      (c.run now clock db j v attempt = db ↔ ∀ error, c ≠ .retry error) := by
  have hver : (job.lockVersion == v) = false := by simpa using hv
  cases c with
  | success result =>
    have hfix : commitSuccess now db j v result = db :=
      update_of_cond_false hj (by simp only [JobRepository.updateStatus, hver, Bool.false_and])
    exact ⟨congrArg Db.jobs hfix, fun _ _ => Commit.noConfusion, fun _ => hfix⟩
  | failure error =>
    have hfix : commitFailure now db j v error = db :=
      update_of_cond_false hj (by simp only [JobRepository.updateStatus, hver, Bool.false_and])
    exact ⟨congrArg Db.jobs hfix, fun _ _ => Commit.noConfusion, fun _ => hfix⟩
  | retry error =>
    have hfix : db.update [j] (commitRetryStmt now (clock + seconds (2 ^ attempt)) v attempt error) = db :=
      update_of_cond_false hj hver
    refine ⟨?_, fun heq => ?_, fun hne => absurd rfl (hne error)⟩
    · simp only [Commit.run, commitRetry, hfix, Db.enqueue]
    · have hlen := congrArg (fun d : Db => d.outbox.length) heq
      simp [Commit.run, commitRetry, hfix, Db.enqueue] at hlen

/-! ## Runs -/

/-- **Fencing is complete exactly in the runs without a stale retry commit.** In a run of any length every
commit under a token that is no longer the job's `lock_version` leaves both tables as they were, if
and only if none of these commits is a `_commit_retry`. -/
theorem fencing_complete_iff (cfg : Config) (ls : List Label) :
    (∀ t ∈ play (step cfg) init ls, ∀ c, t.pre.staleCommit? t.act = some c → t.post.db = t.pre.db) ↔
      ∀ t ∈ play (step cfg) init ls, ∀ error, t.pre.staleCommit? t.act ≠ some (.retry error) := by
  have hrun : Run (step cfg) init _ _ := play_run init ls
  have hone : ∀ t ∈ play (step cfg) init ls, ∀ c, t.pre.staleCommit? t.act = some c →
      (t.post.db = t.pre.db ↔ ∀ error, c ≠ .retry error) := by
    intro t ht c hc
    obtain ⟨j, v, attempt, job, hw, hj, hv⟩ := staleCommit_eq_some hc
    have hdb : t.post.db = c.run t.act.now t.act.clock t.pre.db j v attempt := by
      rw [db_step (hrun.step_of_mem ht), Sys.dbAfter, hw]
      rfl
    rw [hdb]
    exact (run_commit_of_stale hj hv c).2
  constructor
  · intro hall t ht error hc
    exact (hone t ht _ hc).mp (hall t ht _ hc) error rfl
  · intro hall t ht c hc
    refine (hone t ht c hc).mpr ?_
    rintro error rfl
    exact hall t ht error hc

/-- A worker's lease expires and is reaped while its handler runs; then the handler raises. -/
def staleRetryRun : List Label :=
  [tick 0 (.accept 0 0 "backup" (.obj []) "k"),
   tick 0 .dispatchSelect, tick 0 (.dispatchSend 0), tick 0 (.dispatchCommit 0), tick 0 (.receive 0 "w"),
   tick 0 (.exec 0 .count), tick 0 (.exec 0 .limit), tick 0 (.exec 0 .acquire), tick 0 (.exec 0 .read),
   tick 31000000 .reapSelect, tick 31000000 (.reapUpdate 0),
   tick 32000000 (.exec 0 (.finish (.exception "timeout"))), tick 32000000 (.exec 0 .commit)]

/-- Fencing is not complete in general: the stale retry commit inserts an event. -/
theorem stale_retry_enqueues :
    ¬ ∀ (cfg : Config) (ls : List Label), ∀ t ∈ play (step cfg) init ls, ∀ c,
      t.pre.staleCommit? t.act = some c → t.post.db = t.pre.db := by
  intro h
  have hlen : ∀ t ∈ play (step {}) init staleRetryRun, (t.pre.staleCommit? t.act).isSome = true →
      t.post.db.outbox.length = t.pre.db.outbox.length := by
    intro t ht hc
    obtain ⟨c, hc⟩ := Option.isSome_iff_exists.mp hc
    rw [h {} staleRetryRun t ht c hc]
  exact absurd hlen (by decide +kernel)

/-! ## Grants -/

/-- Execution `e` of the job, run by `owner`, has been granted the lease under this token. -/
def Sys.Granted (s : Sys) (e : Nat) (j : JobId) (token : Nat) (owner : String) : Prop :=
  ∃ x, s.execs[e]? = some x ∧ x.job = j ∧ x.fencingToken = some token ∧ x.owner = owner

theorem granted_of_execs (h : p.execs = s.execs) : p.Granted e j token owner ↔ s.Granted e j token owner := by
  unfold Sys.Granted
  rw [h]

theorem granted_set {x x' : Execution} (hx : s.execs[e]? = some x)
    (h : p.execs = s.execs.set e x') {e' : Nat} :
    p.Granted e' j token owner ↔
      if e' = e then x'.job = j ∧ x'.fencingToken = some token ∧ x'.owner = owner
      else s.Granted e' j token owner := by
  have hlt : e < s.execs.length := (List.getElem?_eq_some_iff.mp hx).1
  unfold Sys.Granted
  rw [h]
  by_cases he : e' = e
  · subst he
    simp only [List.getElem?_set_self hlt, Option.some.injEq, if_true]
    constructor
    · rintro ⟨y, rfl, hy⟩; exact hy
    · intro hy; exact ⟨x', rfl, hy⟩
  · simp only [List.getElem?_set_ne (Ne.symm he), if_neg he]

theorem granted_append {new : Execution} (hnew : new.fencingToken = none) (h : p.execs = s.execs ++ [new]) :
    p.Granted e j token owner ↔ s.Granted e j token owner := by
  unfold Sys.Granted
  rw [h]
  constructor
  · rintro ⟨x, hx, hj, ht, ho⟩
    by_cases hlt : e < s.execs.length
    · rw [List.getElem?_append_left hlt] at hx
      exact ⟨x, hx, hj, ht, ho⟩
    · rw [List.getElem?_append_right (Nat.le_of_not_lt hlt)] at hx
      have hmem : x ∈ [new] := List.mem_of_getElem? hx
      obtain rfl := List.mem_singleton.mp hmem
      rw [hnew] at ht
      cases ht
  · rintro ⟨x, hx, hrest⟩
    have hlt : e < s.execs.length := (List.getElem?_eq_some_iff.mp hx).1
    exact ⟨x, by rw [List.getElem?_append_left hlt, hx], hrest⟩

theorem fencingToken_eq_some {db : Db} {now expiresAt : Time}
    (h : JobRepository.fencingToken db j (JobRepository.acquireLeaseWithFencing now owner expiresAt) = some token) :
    ∃ job, db.job? j = some job ∧ (JobRepository.acquireLeaseWithFencing now owner expiresAt).cond job = true ∧
      token = job.lockVersion + 1 := by
  unfold JobRepository.fencingToken at h
  cases hj : db.job? j with
  | none => simp [hj] at h
  | some job =>
    simp only [hj] at h
    split at h
    · rename_i hc
      rw [Option.some.injEq] at h
      exact ⟨job, rfl, hc, h.symm⟩
    · cases h

theorem fencingToken_eq_none {db : Db} {u : Update Job}
    (h : JobRepository.fencingToken db j u = none) (hj : db.job? j = some job) : u.cond job = false := by
  unfold JobRepository.fencingToken at h
  simp only [hj] at h
  split at h
  · cases h
  · rename_i hc
    simpa using hc

/-- The step's lease UPDATE, if it runs one, finds no row. -/
def Sys.NoGrant (s : Sys) (l : Label) : Prop :=
  ∀ j owner expiresAt job, effect s l = some (.acquire j owner expiresAt) → s.db.job? j = some job →
    (JobRepository.acquireLeaseWithFencing l.now owner expiresAt).cond job = false

theorem effect_acquire {expiresAt : Time} (h : effect s l = some (.acquire j owner expiresAt)) :
    ∃ e x, l.act = .exec e .acquire ∧ s.execs[e]? = some x ∧ x.job = j ∧ x.owner = owner ∧
      expiresAt = l.clock + seconds leaseTtlSeconds := by
  rcases effect_cases h with ⟨e, a, x, ha, hx, hw⟩ | ⟨_, _, _, _, hw⟩ | ⟨_, _, _, _, _, hw⟩ |
    ⟨_, _, _, hw⟩ | ⟨_, hw⟩ | ⟨_, hw⟩ | ⟨_, _, hw⟩
  · obtain ⟨rfl, rfl, rfl, rfl⟩ := (write_lease hw).2.1 j owner expiresAt rfl
    exact ⟨e, x, ha, hx, rfl, rfl, rfl⟩
  all_goals cases hw

/-- **What a step does to the grants.** Either it grants nothing, or its lease UPDATE finds the row and
the execution receives the row's next version. -/
theorem granted_step (h : step cfg s l = some s') :
    (s.NoGrant l ∧ ∀ e j token owner, s'.Granted e j token owner ↔ s.Granted e j token owner) ∨
    (∃ e j owner expiresAt job, effect s l = some (.acquire j owner expiresAt) ∧
      s.db.job? j = some job ∧
      (JobRepository.acquireLeaseWithFencing l.now owner expiresAt).cond job = true ∧
      (∀ j' token' owner', s.Granted e j' token' owner' → j' = j) ∧
      ∀ e' j' token' owner', s'.Granted e' j' token' owner' ↔
        if e' = e then j = j' ∧ job.lockVersion + 1 = token' ∧ owner = owner'
        else s.Granted e' j' token' owner') := by
  obtain ⟨p, hp, rfl⟩ := step_eq_some_iff.mp h
  have hother : (∀ e, l.act ≠ .exec e .acquire) → s.NoGrant l := by
    intro hne j owner expiresAt job hw
    obtain ⟨e, x, ha, -⟩ := effect_acquire hw
    exact absurd ha (hne e)
  rcases control_cases hp with ⟨e, a, ha⟩ | ⟨hne, ⟨m, owner, i, hm, rfl⟩ | ⟨hexecs, -⟩⟩
  · obtain ⟨x, x', hx, hnext, rfl⟩ := control_exec ha hp
    have hset : ∀ {e' j token owner}, Sys.Granted _ e' j token owner ↔ _ :=
      granted_set (p := { s with execs := s.execs.set e x' }) hx rfl
    -- the execution keeps its grant
    have hkeep : x'.job = x.job → x'.owner = x.owner → x'.fencingToken = x.fencingToken →
        ∀ e' j token owner, Sys.Granted { s with execs := s.execs.set e x' } e' j token owner ↔
          s.Granted e' j token owner := by
      intro hjob howner htoken e' j token owner
      refine hset.trans ?_
      by_cases he : e' = e
      · subst he
        rw [if_pos rfl, hjob, howner, htoken]
        exact ⟨fun hy => ⟨x, hx, hy⟩, fun ⟨y, hy, hrest⟩ => Option.some.inj (hx.symm.trans hy) ▸ hrest⟩
      · rw [if_neg he]
    by_cases hacq : a = .acquire
    · subst hacq
      have hw : effect s l = some (.acquire x.job x.owner (l.clock + seconds leaseTtlSeconds)) := by
        simp only [effect, ha, hx, Execution.write]
      cases hph : x.phase <;> simp only [Execution.next, hph, reduceCtorEq] at hnext
      cases htok : JobRepository.fencingToken s.db x.job (x.acquireStmt l.now l.clock) with
      | none =>
        simp only [htok, Option.some.injEq] at hnext
        subst hnext
        refine .inl ⟨?_, hkeep rfl rfl rfl⟩
        intro j owner expiresAt job hw' hj
        rw [hw] at hw'
        simp only [Option.some.injEq, Write.acquire.injEq] at hw'
        obtain ⟨rfl, rfl, rfl⟩ := hw'
        exact fencingToken_eq_none htok hj
      | some token =>
        simp only [htok, Option.some.injEq] at hnext
        subst hnext
        obtain ⟨job, hj, hc, rfl⟩ := fencingToken_eq_some htok
        refine .inr ⟨e, x.job, x.owner, _, job, hw, hj, hc, ?_, ?_⟩
        · rintro j' token' owner' ⟨y, hy, rfl, -⟩
          rw [Option.some.inj (hx.symm.trans hy)]
        · intro e' j' token' owner'
          refine hset.trans ?_
          simp only [Option.some.injEq]
    · obtain ⟨hjob, howner, htoken, -⟩ := next_frame hnext
      refine .inl ⟨hother (fun e' he' => ?_), hkeep hjob howner (htoken hacq)⟩
      rw [ha] at he'
      cases he'
      exact hacq rfl
  · exact .inl ⟨hother (fun e => hne e _), fun _ _ _ _ => granted_append rfl rfl⟩
  · exact .inl ⟨hother (fun e => hne e _), fun _ _ _ _ => granted_of_execs hexecs⟩

/-! ## Transactions -/

theorem lockVersion_onRow (now clock : Time) (w : Write) (j : JobId) (job : Job) :
    job.lockVersion ≤ (w.onRow now clock j job).lockVersion := by
  unfold Write.onRow
  by_cases hjs : j ∈ (w.stmt now clock).1
  · rw [if_pos hjs]
    rcases (w.stmt now clock).2.apply_cases job with ⟨-, happ⟩ | ⟨-, happ⟩
    · rw [happ]
      cases w with
      | commit i v attempt c => cases c <;> exact Nat.le_succ _
      | accept _ _ _ _ _ | deliver _ | renew _ _ _ | release _ _ | updateJobStatus _ _ => exact Nat.le_refl _
      | requestCancel _ _ _ | acquire _ _ _ | reap _ | requeue _ | markJobFailed _ _ => exact Nat.le_succ _
    · rw [happ]
  · rw [if_neg hjs]

theorem leaseOwner_onRow {now clock : Time} {w : Write} (h : (w.onRow now clock j job).leaseOwner = some owner) :
    job.leaseOwner = some owner ∨ ∃ expiresAt, w = .acquire j owner expiresAt ∧
        (JobRepository.acquireLeaseWithFencing now owner expiresAt).cond job = true := by
  unfold Write.onRow at h
  by_cases hjs : j ∈ (w.stmt now clock).1
  · rw [if_pos hjs] at h
    rcases (w.stmt now clock).2.apply_cases job with ⟨hc, happ⟩ | ⟨-, happ⟩
    · rw [happ] at h
      cases w with
      | acquire i owner' expiresAt =>
        obtain rfl := List.mem_singleton.mp hjs
        obtain rfl : owner' = owner := Option.some.inj h
        exact .inr ⟨expiresAt, rfl, hc⟩
      | commit i v attempt c => cases c <;> exact .inl h
      | release _ _ | reap _ => cases h
      | _ => exact .inl h
    · exact .inl (happ ▸ h)
  · rw [if_neg hjs] at h
    exact .inl h

/-! ## Invariant -/

/-- **The invariant of the tokens.** A grant's token is at most the row's version, no two executions of a
job have the same token, and a lease is held by the execution with the largest one. -/
structure LeaseInv (s : Sys) : Prop where
  known : ∀ {e j token owner}, s.Granted e j token owner →
    ∃ job, s.db.job? j = some job ∧ token ≤ job.lockVersion
  unique : ∀ {e e' j token owner owner'}, s.Granted e j token owner → s.Granted e' j token owner' → e = e'
  holder : ∀ {j job owner}, s.db.job? j = some job → job.leaseOwner = some owner →
    ∃ e token, s.Granted e j token owner ∧
      ∀ e' token' owner', s.Granted e' j token' owner' → token' ≤ token

theorem granted_functional {token' : Nat} {owner' : String}
    (h : s.Granted e j token owner) (h' : s.Granted e j token' owner') : token = token' ∧ owner = owner' := by
  obtain ⟨x, hx, -, ht, ho⟩ := h
  obtain ⟨x', hx', -, ht', ho'⟩ := h'
  obtain rfl : x = x' := Option.some.inj (hx.symm.trans hx')
  exact ⟨Option.some.inj (ht.symm.trans ht'), ho.symm.trans ho'⟩

theorem leaseInv_init : LeaseInv init where
  known := by rintro e j token owner ⟨x, hx, -⟩; cases hx
  unique := by rintro e e' j token owner owner' ⟨x, hx, -⟩; cases hx
  holder := by intro j job owner hj; cases hj

theorem version_step (h : step cfg s l = some s') (hj : s.db.job? j = some job) :
    ∃ job', s'.db.job? j = some job' ∧ job.lockVersion ≤ job'.lockVersion := by
  refine ⟨_, job?_step h hj, ?_⟩
  unfold Sys.rowAfter
  cases effect s l with
  | none => exact Nat.le_refl _
  | some w => exact lockVersion_onRow _ _ _ _ _

theorem leaseOwner_step (h : step cfg s l = some s')
    {job' : Job} (hj' : s'.db.job? j = some job') (ho : job'.leaseOwner = some owner) :
    ∃ job, s.db.job? j = some job ∧ (job.leaseOwner = some owner ∨
        ∃ expiresAt, effect s l = some (.acquire j owner expiresAt) ∧
          (JobRepository.acquireLeaseWithFencing l.now owner expiresAt).cond job = true) := by
  cases hj : s.db.job? j with
  | none =>
    have hdb := db_step h
    unfold Sys.dbAfter at hdb
    cases hw : effect s l with
    | none =>
      rw [hw] at hdb
      rw [hdb, hj] at hj'
      cases hj'
    | some w =>
      rw [hw] at hdb
      rw [hdb] at hj'
      obtain ⟨d, u, kind, payload, key, ev, rfl, -⟩ := run_new_row hj hj'
      cases ho
  | some job =>
    refine ⟨job, rfl, ?_⟩
    obtain rfl := Option.some.inj ((job?_step h hj).symm.trans hj')
    unfold Sys.rowAfter at ho
    cases hw : effect s l with
    | none =>
      rw [hw] at ho
      exact .inl ho
    | some w =>
      rw [hw] at ho
      rcases leaseOwner_onRow ho with ho | ⟨expiresAt, rfl, hc⟩
      · exact .inl ho
      · exact .inr ⟨expiresAt, rfl, hc⟩

/-- **Every step keeps the invariant of the tokens.** -/
theorem leaseInv_step (h : step cfg s l = some s') (hinv : LeaseInv s) : LeaseInv s' := by
  rcases granted_step h with ⟨hno, hsame⟩ | ⟨e₀, j₀, owner₀, expiresAt₀, job₀, hw, hj₀, hc₀, hown, hgr⟩
  · refine ⟨?_, ?_, ?_⟩
    · intro e j token owner hg
      obtain ⟨job, hj, hle⟩ := hinv.known ((hsame _ _ _ _).mp hg)
      obtain ⟨job', hj', hver⟩ := version_step h hj
      exact ⟨job', hj', Nat.le_trans hle hver⟩
    · intro e e' j token owner owner' hg hg'
      exact hinv.unique ((hsame _ _ _ _).mp hg) ((hsame _ _ _ _).mp hg')
    · intro j job' owner hj' ho
      obtain ⟨job, hj, ho | ⟨expiresAt, hw, hc⟩⟩ := leaseOwner_step h hj' ho
      · obtain ⟨e, token, hg, hmax⟩ := hinv.holder hj ho
        exact ⟨e, token, (hsame _ _ _ _).mpr hg, fun e' token' owner' hg' =>
          hmax e' token' owner' ((hsame _ _ _ _).mp hg')⟩
      · exact absurd hc (by simp [hno j owner expiresAt job hw hj])
  · -- `e₀` has just received the next version of its row
    have hrow : s'.db.job? j₀ = some
        ((JobRepository.acquireLeaseWithFencing l.now owner₀ expiresAt₀).set job₀) := by
      rw [job?_step h hj₀]
      simp only [Sys.rowAfter, hw, Write.onRow, Write.stmt, List.mem_singleton, if_true]
      rw [Update.apply_of_cond hc₀]
    have hnew : s'.Granted e₀ j₀ (job₀.lockVersion + 1) owner₀ :=
      (hgr _ _ _ _).mpr (by rw [if_pos rfl]; exact ⟨rfl, rfl, rfl⟩)
    have hold : ∀ {e token owner}, s.Granted e j₀ token owner → token ≤ job₀.lockVersion := by
      intro e token owner hg
      obtain ⟨job, hj, hle⟩ := hinv.known hg
      obtain rfl : job₀ = job := Option.some.inj (hj₀.symm.trans hj)
      exact hle
    have hle₀ : ∀ {e token owner}, s'.Granted e j₀ token owner → token ≤ job₀.lockVersion + 1 := by
      intro e token owner hg
      rw [hgr] at hg
      by_cases he : e = e₀
      · rw [if_pos he] at hg
        exact Nat.le_of_eq hg.2.1.symm
      · rw [if_neg he] at hg
        exact Nat.le_succ_of_le (hold hg)
    refine ⟨?_, ?_, ?_⟩
    · intro e j token owner hg
      rw [hgr] at hg
      by_cases he : e = e₀
      · rw [if_pos he] at hg
        obtain ⟨rfl, rfl, rfl⟩ := hg
        exact ⟨_, hrow, Nat.le_refl _⟩
      · rw [if_neg he] at hg
        obtain ⟨job, hj, hle⟩ := hinv.known hg
        obtain ⟨job', hj', hver⟩ := version_step h hj
        exact ⟨job', hj', Nat.le_trans hle hver⟩
    · intro e e' j token owner owner' hg hg'
      rw [hgr] at hg hg'
      by_cases he : e = e₀ <;> by_cases he' : e' = e₀
      · exact he.trans he'.symm
      · rw [if_pos he] at hg
        rw [if_neg he'] at hg'
        obtain ⟨rfl, rfl, rfl⟩ := hg
        exact absurd (hold hg') (Nat.not_succ_le_self _)
      · rw [if_neg he] at hg
        rw [if_pos he'] at hg'
        obtain ⟨rfl, rfl, rfl⟩ := hg'
        exact absurd (hold hg) (Nat.not_succ_le_self _)
      · rw [if_neg he] at hg
        rw [if_neg he'] at hg'
        exact hinv.unique hg hg'
    · intro j job' owner hj' ho
      by_cases hjj : j = j₀
      · subst hjj
        obtain rfl := Option.some.inj (hrow.symm.trans hj')
        obtain rfl : owner₀ = owner := Option.some.inj ho
        exact ⟨e₀, _, hnew, fun e' token' owner' hg' => hle₀ hg'⟩
      · obtain ⟨job, hj, ho | ⟨expiresAt, hw', -⟩⟩ := leaseOwner_step h hj' ho
        · obtain ⟨e, token, hg, hmax⟩ := hinv.holder hj ho
          have hback : ∀ {e' token' owner'}, s'.Granted e' j token' owner' →
              s.Granted e' j token' owner' := by
            intro e' token' owner' hg'
            rw [hgr] at hg'
            by_cases he : e' = e₀
            · rw [if_pos he] at hg'
              exact absurd hg'.1.symm hjj
            · rwa [if_neg he] at hg'
          refine ⟨e, token, ?_, fun e' token' owner' hg' => hmax e' token' owner' (hback hg')⟩
          rw [hgr]
          have he : e ≠ e₀ := by
            rintro rfl
            exact hjj (hown _ _ _ hg)
          rw [if_neg he]
          exact hg
        · rw [hw] at hw'
          simp only [Option.some.injEq, Write.acquire.injEq] at hw'
          exact absurd hw'.1.symm hjj

/-! ## Stale executions -/

/-- A later execution of the same job has been granted the lease. -/
def Sys.Superseded (s : Sys) (e : Nat) : Prop :=
  ∃ j token owner e' token' owner',
    s.Granted e j token owner ∧ s.Granted e' j token' owner' ∧ token < token'

/-- The step renews or releases the lease of its job for execution `e`. -/
def Label.LeaseStep (l : Label) (e : Nat) : Prop := l.act = .exec e .release ∨ l.act = .exec e .beat

/-- A superseded execution that releases or renews leaves the lease columns of its job as they are. -/
def LeaseKept (t : Transition Sys Label) : Prop :=
  ∀ e x job job', t.act.LeaseStep e → t.pre.Superseded e → t.pre.execs[e]? = some x →
    t.pre.db.job? x.job = some job → t.post.db.job? x.job = some job' →
      job'.leaseOwner = job.leaseOwner ∧ job'.leaseExpiresAt = job.leaseExpiresAt

/-- The owner string tells a superseded execution from the one that was granted the lease last, or the
lease is not held, or the statement cannot matter: its heartbeat has raised and the release is skipped,
or the renewal writes the instant that is there. -/
def Sys.OwnerTold (s : Sys) (l : Label) : Prop :=
  ∀ e x job, l.LeaseStep e → s.Superseded e → s.execs[e]? = some x → s.db.job? x.job = some job →
    (∃ e' token' owner', s.Granted e' x.job token' owner' ∧
      (∀ e'' token'' owner'', s.Granted e'' x.job token'' owner'' → token'' ≤ token') ∧
      owner' ≠ x.owner) ∨
    job.leaseOwner = none ∨
    (l.act = .exec e .release ∧ x.heartbeat = .raised) ∨
    (l.act = .exec e .beat ∧ job.leaseExpiresAt = some (l.clock + seconds leaseTtlSeconds))

theorem rowAfter_release {x : Execution} (ha : l.act = .exec e .release)
    (hx : s.execs[e]? = some x) (hb : x.heartbeat ≠ .raised) (job : Job) :
    s.rowAfter l x.job job = (JobRepository.releaseLease l.now x.owner).apply job := by
  simp only [Sys.rowAfter, effect, ha, hx, Execution.write, if_neg hb, Write.onRow, Write.stmt,
    List.mem_singleton, if_true]

theorem rowAfter_beat {x : Execution} (ha : l.act = .exec e .beat) (hx : s.execs[e]? = some x) (job : Job) :
    s.rowAfter l x.job job = (x.renewStmt l.now l.clock).apply job := by
  simp only [Sys.rowAfter, effect, ha, hx, Execution.write, Write.onRow, Write.stmt,
    List.mem_singleton, if_true]
  rfl

theorem owner_of_latest (hinv : LeaseInv s) (hj : s.db.job? j = some job) (ho : job.leaseOwner = some owner)
    {owner' : String} (hg : s.Granted e j token owner')
    (hmax : ∀ e'' token'' owner'', s.Granted e'' j token'' owner'' → token'' ≤ token) : owner = owner' := by
  obtain ⟨eh, th, hgh, hmaxh⟩ := hinv.holder hj ho
  obtain rfl : th = token := Nat.le_antisymm (hmax _ _ _ hgh) (hmaxh _ _ _ hg)
  obtain rfl := hinv.unique hgh hg
  exact (granted_functional hgh hg).2

/-- **One step** keeps the lease of a later execution exactly when the owner string tells the two apart. -/
theorem leaseKept_iff {t : Transition Sys Label} (h : step cfg t.pre t.act = some t.post) (hinv : LeaseInv t.pre) :
    LeaseKept t ↔ t.pre.OwnerTold t.act := by
  constructor
  · intro hkept e x job hl hsup hx hj
    have hrow := job?_step h hj
    obtain ⟨ho', he'⟩ := hkept e x job _ hl hsup hx hj hrow
    cases ho : job.leaseOwner with
    | none => exact .inr (.inl rfl)
    | some owner =>
      by_cases how : owner = x.owner
      · subst how
        rcases hl with ha | ha
        · by_cases hb : x.heartbeat = .raised
          · exact .inr (.inr (.inl ⟨ha, hb⟩))
          · have hc : (JobRepository.releaseLease t.act.now x.owner).cond job = true := by
              simp [JobRepository.releaseLease, ho]
            rw [rowAfter_release ha hx hb, Update.apply_of_cond hc, ho] at ho'
            cases ho'
        · have hc : (x.renewStmt t.act.now t.act.clock).cond job = true := by
            simp [Execution.renewStmt, JobRepository.renewLease, ho]
          rw [rowAfter_beat ha hx, Update.apply_of_cond hc] at he'
          exact .inr (.inr (.inr ⟨ha, he'.symm⟩))
      · obtain ⟨eh, th, hg, hmax⟩ := hinv.holder hj ho
        exact .inl ⟨eh, th, owner, hg, hmax, how⟩
  · intro htold e x job job' hl hsup hx hj hj'
    obtain rfl := Option.some.inj ((job?_step h hj).symm.trans hj')
    have hquiet : job.leaseOwner ≠ some x.owner →
        (t.pre.rowAfter t.act x.job job).leaseOwner = job.leaseOwner ∧
          (t.pre.rowAfter t.act x.job job).leaseExpiresAt = job.leaseExpiresAt := by
      intro hne
      rcases hl with ha | ha
      · by_cases hb : x.heartbeat = .raised
        · simp [Sys.rowAfter, effect, ha, hx, Execution.write, hb]
        · have hc : (JobRepository.releaseLease t.act.now x.owner).cond job = false := by
            simpa [JobRepository.releaseLease] using hne
          rw [rowAfter_release ha hx hb, Update.apply_of_not_cond hc]
          exact ⟨rfl, rfl⟩
      · have hc : (x.renewStmt t.act.now t.act.clock).cond job = false := by
          simpa [Execution.renewStmt, JobRepository.renewLease] using hne
        rw [rowAfter_beat ha hx, Update.apply_of_not_cond hc]
        exact ⟨rfl, rfl⟩
    rcases htold e x job hl hsup hx hj with ⟨e', token', owner', hg, hmax, hne⟩ | ho | ⟨ha, hb⟩ | ⟨ha, hexp⟩
    · refine hquiet (fun ho => hne ?_)
      exact (owner_of_latest hinv hj ho hg hmax).symm
    · exact hquiet (by rw [ho]; simp)
    · simp [Sys.rowAfter, effect, ha, hx, Execution.write, hb]
    · rw [rowAfter_beat ha hx]
      rcases (x.renewStmt t.act.now t.act.clock).apply_cases job with ⟨-, happ⟩ | ⟨-, happ⟩
      · rw [happ]
        exact ⟨rfl, hexp.symm⟩
      · rw [happ]
        exact ⟨rfl, rfl⟩

/-! ## Runs -/

/-- The step grants no lease, or its token is larger than every token of the job before. -/
def Supersedes (t : Transition Sys Label) : Prop :=
  ∀ e j token owner, t.post.Granted e j token owner → ¬ t.pre.Granted e j token owner →
    ∀ e' token' owner', t.pre.Granted e' j token' owner' → token' < token

theorem supersedes_step {t : Transition Sys Label} (h : step cfg t.pre t.act = some t.post) (hinv : LeaseInv t.pre) :
    Supersedes t := by
  intro e j token owner hg hfresh e' token' owner' hg'
  rcases granted_step h with ⟨-, hsame⟩ | ⟨e₀, j₀, owner₀, expiresAt, job₀, -, hj₀, -, -, hgr⟩
  · exact absurd ((hsame _ _ _ _).mp hg) hfresh
  · rw [hgr] at hg
    by_cases he : e = e₀
    · rw [if_pos he] at hg
      obtain ⟨rfl, rfl, rfl⟩ := hg
      -- no earlier token is above the version that the lease UPDATE found
      obtain ⟨job, hj, hle⟩ := hinv.known hg'
      obtain rfl : job₀ = job := Option.some.inj (hj₀.symm.trans hj)
      exact Nat.lt_succ_of_le hle
    · rw [if_neg he] at hg
      exact absurd hg hfresh

/-- **Fencing tokens are never reused and only grow.** In every run, whatever the crashes, redeliveries and clocks,
no two executions of a job have the same token, the holder of a lease has the largest one, and a new grant's token
is above all tokens of the job before. -/
theorem fencing_tokens (cfg : Config) (ls : List Label) :
    ∀ t ∈ play (step cfg) init ls, LeaseInv t.post ∧ Supersedes t := by
  intro t ht
  have hrun : Run (step cfg) init _ _ := play_run init ls
  obtain ⟨hpre, hpost⟩ := hrun.invariant_of_step leaseInv_step leaseInv_init t ht
  exact ⟨hpost, supersedes_step (hrun.step_of_mem ht) hpre⟩

/-- **Leases are exclusive exactly in the runs whose owner strings tell stale executions apart.** In a run
of any length, no execution changes the lease columns of its job by a release or a heartbeat after a
later execution of the job was granted the lease, if and only if at every such statement the execution
with the largest token runs under another owner string, or no lease is held, or the statement cannot
matter. -/
theorem lease_exclusive_iff (cfg : Config) (ls : List Label) :
    (∀ t ∈ play (step cfg) init ls, LeaseKept t) ↔
      ∀ t ∈ play (step cfg) init ls, t.pre.OwnerTold t.act := by
  have hrun : Run (step cfg) init _ _ := play_run init ls
  refine forall₂_congr (fun t ht => ?_)
  exact leaseKept_iff (hrun.step_of_mem ht) (hrun.invariant_of_step leaseInv_step leaseInv_init t ht).1

/-- The lease of the first execution is reaped, the redelivered task runs on the same worker, and the first
execution reaches its finally block. -/
def staleReleaseRun : List Label :=
  [tick 0 (.accept 0 0 "backup" (.obj []) "k"),
   tick 0 .dispatchSelect, tick 0 (.dispatchSend 0), tick 0 (.dispatchCommit 0), tick 0 (.receive 0 "w"),
   tick 0 (.exec 0 .count), tick 0 (.exec 0 .limit), tick 0 (.exec 0 .acquire), tick 0 (.exec 0 .read),
   tick 31000000 .reapSelect, tick 31000000 (.reapUpdate 0),
   tick 32000000 .dispatchSelect, tick 32000000 (.dispatchSend 0), tick 32000000 (.dispatchCommit 0),
   tick 32000000 (.receive 0 "w"),
   tick 32000000 (.exec 1 .count), tick 32000000 (.exec 1 .limit), tick 32000000 (.exec 1 .acquire),
   tick 33000000 (.exec 0 (.finish (.returned none))), tick 33000000 (.exec 0 .commit),
   tick 33000000 (.exec 0 .release)]

theorem fencing_tokens_stale : ∃ t ∈ play (step {}) init staleReleaseRun,
    (∃ x ∈ t.post.execs[1]?, x.fencingToken = some 3) ∧ LeaseInv t.post ∧ Supersedes t := by
  have hgrant : ∃ t ∈ play (step {}) init staleReleaseRun, ∃ x ∈ t.post.execs[1]?, x.fencingToken = some 3 := by
    decide +kernel
  obtain ⟨t, ht, hx⟩ := hgrant
  exact ⟨t, ht, hx, fencing_tokens {} staleReleaseRun t ht⟩

/-- The execution whose release the step is. -/
def Action.releases? : Action → Option Nat
  | .exec e .release => some e
  | _ => none

theorem releases_eq_some {a : Action} (h : a.releases? = some e) : a = .exec e .release := by
  unfold Action.releases? at h
  split at h
  · rw [Option.some.inj h]
  · cases h

/-- Leases are not exclusive in general: the release of the first execution clears the lease of the second
one and leaves a running job without a lease. -/
theorem stale_release :
    ¬ ∀ (cfg : Config) (ls : List Label), ∀ t ∈ play (step cfg) init ls, LeaseKept t := by
  intro h
  have hkept : ∀ t ∈ play (step {}) init staleReleaseRun, ∀ x ∈ t.pre.execs[0]?, ∀ y ∈ t.pre.execs[1]?,
      ∀ job ∈ t.pre.db.job? 0, ∀ job' ∈ t.post.db.job? 0, t.act.act.releases? = some 0 →
        x.job = 0 → y.job = 0 → x.fencingToken = some 1 → y.fencingToken = some 3 →
          job'.leaseOwner = job.leaseOwner := by
    intro t ht x hx y hy job hj job' hj' hr hxj hyj hxt hyt
    have ha := releases_eq_some hr
    refine (h {} staleReleaseRun t ht 0 x job job' (.inl ha) ?_ hx (hxj ▸ hj) (hxj ▸ hj')).1
    exact ⟨0, 1, x.owner, 1, 3, y.owner, ⟨x, hx, hxj, hxt, rfl⟩, ⟨y, hy, hyj, hyt, rfl⟩, by decide⟩
  exact absurd hkept (by decide +kernel)

end Irip.Jobs
