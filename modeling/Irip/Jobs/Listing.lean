import Irip.Common.Pagination

/-!
# `Jobs.Listing` — the pages of the job list

`JobService.list` sorts the jobs by `created_at`, latest first, and its cursor is the `created_at` of the last job of a
page. Jobs that were created at the same instant come in any order.
-/

namespace Irip.Jobs.Listing

open Pagination

/-! ## Rows -/

/-- What the list reads of a row of `job`. -/
structure JobRow where
  id : Guid
  kind : String
  status : JobStatus
  attempt : Nat
  maxAttempts : Nat
  lastError : Option (List (String × Json))
  createdAt : Instant

/-- A row of `flow_run`, with the names that its version leads to. -/
structure FlowRunRow where
  jobId : Option Guid
  flowName : Option String
  deptName : Option String

/-- The tables. A flow run is inserted with a job of its own. -/
structure Tables where
  jobs : List JobRow
  flowRuns : List FlowRunRow
  ownJobs : (flowRuns.filterMap FlowRunRow.jobId).Nodup

/-- A row of the query. -/
structure Row where
  job : JobRow
  flowName : Option String
  deptName : Option String

/-- `Job OUTER JOIN FlowRun ON FlowRun.job_id = Job.id`, for one job. -/
def Tables.join (t : Tables) (j : JobRow) : List Row :=
  match t.flowRuns.filter (fun r => r.jobId == some j.id) with
  | [] => [{ job := j, flowName := none, deptName := none }]
  | runs => runs.map (fun r => { job := j, flowName := r.flowName, deptName := r.deptName })

/-- What the list is asked for: the jobs that the session sees, with a status and of a kind if these are given. -/
structure Query where
  visible : JobRow → Bool
  status : Option String := none
  kind : Option String := none

/-- The job meets the conditions. -/
def Query.selects (q : Query) (j : JobRow) : Bool :=
  q.visible j && q.status.all (fun s => j.status.value == s) && q.kind.all (fun k => j.kind == k)

/-- The jobs that are listed. -/
def Query.jobs (q : Query) (t : Tables) : List JobRow := t.jobs.filter q.selects

/-- The rows that are listed. -/
def Query.rows (q : Query) (t : Tables) : List Row := (q.jobs t).flatMap t.join

/-! ## Pages -/

/-- An item of the list. -/
structure Item where
  job : JobRow
  stage : Json
  progress : Nat
  retryable : Bool
  flowName : String
  deptName : String

/-- The item of a row. -/
def Row.item (r : Row) : Item where
  job := r.job
  stage := match r.job.lastError with
    | none => .str ""
    | some fields => if fields.isEmpty then .str "" else Json.getD fields "stage" (.str "")
  progress := if r.job.status.IsTerminal then 100 else if r.job.status = .running then 50 else 0
  retryable := r.job.attempt < r.job.maxAttempts && !decide r.job.status.IsTerminal
  flowName := r.flowName.getD ""
  deptName := r.deptName.getD ""

/-- `ORDER BY created_at DESC`. -/
def Row.sortKey (r : Row) : Instantᵒᵈ := OrderDual.toDual r.job.createdAt

def invalidCursor (cursor : String) : AppError where
  code := "invalid_cursor"
  message := "无效的分页游标"
  fields := [("cursor", .str cursor)]

/-- What is made of the rows that meet the conditions: one more than the page has is fetched. -/
def pageOf (order : Paging.OrderBy Row.sortKey) (found : List Row) (limit : Nat) : List Item × Option String × Bool :=
  let rows := (order.sort found).take (limit + 1)
  let hasMore := decide (limit < rows.length)
  let pageRows := rows.take limit
  let nextCursor := if hasMore then pageRows.getLast?.map (fun r => Instant.text r.job.createdAt) else none
  (pageRows.map Row.item, nextCursor, hasMore)

/-- `JobService.list`: the items, the next cursor, and whether there is more. -/
def list (order : Paging.OrderBy Row.sortKey) (t : Tables) (q : Query) (cursor : Option String) (limit : Nat) :
    Except AppError (List Item × Option String × Bool) :=
  match cursor with
  | none => .ok (pageOf order (q.rows t) limit)
  | some cursor =>
    match readInstant cursor with
    | none => .error (invalidCursor cursor)
    | some cursorDt => .ok (pageOf order ((q.rows t).filter (fun r => r.job.createdAt < cursorDt)) limit)

/-- A page as whoever follows the cursors sees it. The database may arrange the rows differently for each page. -/
def pages (orders : Nat → Paging.OrderBy Row.sortKey) (t : Tables) (q : Query) (limit i : Nat) (cursor : Option String) :
    Except AppError (List Item × Option String) :=
  (list (orders i) t q cursor limit).map (fun (items, nextCursor, _) => (items, nextCursor))

/-! ## Result -/

section Result

variable {orders : Nat → Paging.OrderBy Row.sortKey} {t : Tables} {q : Query} {limit : Nat}

/-- Following the cursors from the first page on ends, and lists every job once, the latest first. -/
def Listed (orders : Nat → Paging.OrderBy Row.sortKey) (t : Tables) (q : Query) (limit : Nat) : Prop :=
  ∃ items, Paging.follow (pages orders t q limit) (t.jobs.length + 1) 0 none = some (.ok items) ∧
    (items.map Item.job).Perm (q.jobs t) ∧ items.Pairwise (fun a b => b.job.createdAt ≤ a.job.createdAt)

/-- The last job of a full page and the one behind it were not created at the same instant. -/
def NoTies (t : Tables) (q : Query) (limit : Nat) : Prop :=
  Paging.Gaps limit (Paging.sortedKeys (fun j : JobRow => OrderDual.toDual j.createdAt) (q.jobs t))

theorem join_single (t : Tables) (j : JobRow) : ∃ r, t.join j = [r] ∧ r.job = j := by
  have hruns : (t.flowRuns.filter (fun r => r.jobId == some j.id)).length ≤ 1 := by
    have hcount := List.nodup_iff_count_le_one.mp t.ownJobs j.id
    rwa [List.count, List.countP_filterMap, List.countP_eq_length_filter,
      List.filter_congr (q := fun r => r.jobId == some j.id)] at hcount
    intro r _
    cases r.jobId with
    | none => rfl
    | some id => simp
  unfold Tables.join
  rcases hfilter : t.flowRuns.filter (fun r => r.jobId == some j.id) with _ | ⟨r, _ | ⟨r', rs⟩⟩
  · exact ⟨{ job := j, flowName := none, deptName := none }, by rw [hfilter], rfl⟩
  · refine ⟨{ job := j, flowName := r.flowName, deptName := r.deptName }, ?_, rfl⟩
    rw [hfilter]
    rfl
  · rw [hfilter] at hruns
    simp at hruns

theorem rows_job (q : Query) (t : Tables) : (q.rows t).map Row.job = q.jobs t := by
  unfold Query.rows
  induction q.jobs t with
  | nil => rfl
  | cons j js ih =>
    obtain ⟨r, hr, hjob⟩ := join_single t j
    rw [List.flatMap_cons, List.map_append, ih, hr, List.map_singleton, hjob]
    rfl

/-- The cursor that the list writes for a key. -/
def cursorText (k : Instantᵒᵈ) : String := Instant.text (OrderDual.ofDual k)

theorem pageOf_eq (limit : Nat) (order : Paging.OrderBy Row.sortKey) (rows : List Row) (after : Option Instantᵒᵈ) :
    (pageOf order (rows.filter (Paging.beyond Row.sortKey after)) limit).1 =
        (Paging.page order rows limit after).1.map Row.item ∧
      (pageOf order (rows.filter (Paging.beyond Row.sortKey after)) limit).2.1 =
        (Paging.page order rows limit after).2.map cursorText := by
  refine ⟨rfl, ?_⟩
  unfold pageOf Paging.page
  simp only [decide_eq_true_eq]
  split
  · rw [Option.map_map]
    rfl
  · rfl

theorem pages_eq (orders : Nat → Paging.OrderBy Row.sortKey) (t : Tables) (q : Query) (limit i : Nat)
    (after : Option Instantᵒᵈ) :
    pages orders t q limit i (after.map cursorText) =
      .ok ((Paging.page (orders i) (q.rows t) limit after).1.map Row.item,
        (Paging.page (orders i) (q.rows t) limit after).2.map cursorText) := by
  obtain ⟨hitems, hnext⟩ := pageOf_eq limit (orders i) (q.rows t) after
  rw [← hitems, ← hnext]
  cases after with
  | none =>
    have hall : (q.rows t).filter (Paging.beyond Row.sortKey none) = q.rows t :=
      List.filter_eq_self.mpr (fun _ _ => rfl)
    rw [hall]
    rfl
  | some k =>
    have hread : readInstant (cursorText k) = some (OrderDual.ofDual k) := readInstant_text _
    simp only [pages, list, Option.map_some, hread]
    rfl

/-- **The job list is complete** exactly if no page ends between two jobs of the same instant. -/
theorem listed_iff (hlimit : 1 ≤ limit) : Listed orders t q limit ↔ NoTies t q limit := by
  have hrows : (q.rows t).length = (q.jobs t).length := by rw [← rows_job, List.length_map]
  have hfuel : (q.rows t).length < t.jobs.length + 1 := by
    rw [hrows]
    exact Nat.lt_succ_of_le (List.length_filter_le _ _)
  have hkeys : Paging.sortedKeys Row.sortKey (q.rows t) =
      Paging.sortedKeys (fun j : JobRow => OrderDual.toDual j.createdAt) (q.jobs t) := by
    unfold Paging.sortedKeys
    rw [← rows_job, List.map_map]
    rfl
  obtain ⟨out, hout, hsorts, hfew⟩ := Paging.collect_all orders hlimit hfuel
  have hfollow := Paging.follow_encode (pages_eq orders t q limit)
    (t.jobs.length + 1) 0 none
  rw [Option.map_none, hout, Option.map_some] at hfollow
  rw [hkeys] at hsorts hfew
  constructor
  · rintro ⟨items, hitems, hperm, -⟩
    obtain rfl := Except.ok.inj (Option.some.inj (hfollow.symm.trans hitems))
    by_contra hties
    have hlength := hperm.length_eq
    rw [List.length_map, List.length_map, ← hrows] at hlength
    exact absurd hlength (hfew hties).ne
  · intro hties
    have hsorted := hsorts hties
    refine ⟨out.map Row.item, hfollow, ?_, ?_⟩
    · rw [List.map_map, ← rows_job]
      exact hsorted.perm.map Row.job
    · rw [List.pairwise_map]
      exact hsorted.sorted

end Result

end Irip.Jobs.Listing
