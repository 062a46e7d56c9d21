import Irip.Departments.Listing
import Irip.Jobs.Listing
import Irip.Parameters.Listing

/-!
# `Common.Listings` — the three listings together

The keyset lists of parameters and departments are complete whatever the tables hold. The cursor of the job list has only
a part of what would order the jobs.
-/

namespace Irip.Listings

open Paging (OrderBy)

/-- What the three lists are asked for. -/
structure Requests where
  jobs : Jobs.Listing.Query
  limit : Nat
  parameters : Parameters.Listing.Filters
  pageSize : Nat
  departments : Departments.Listing.Query
  departmentSize : Int

/-- The tables. -/
structure Tables where
  jobs : Jobs.Listing.Tables
  parameters : Parameters.Listing.Table
  departments : Departments.Listing.Table

/-- How the database arranges the rows of each page. -/
structure Orders where
  jobs : Nat → OrderBy Jobs.Listing.Row.sortKey
  parameters : Nat → OrderBy Parameters.Listing.ParameterRow.sortKey
  departments : Nat → OrderBy Departments.Listing.DepartmentRow.sortKey

/-- Following its cursors, each list yields every visible row once, in the declared order. -/
structure Complete (exc : String → String) (orders : Orders) (t : Tables) (r : Requests) : Prop where
  jobs : Jobs.Listing.Listed orders.jobs t.jobs r.jobs r.limit
  parameters : Parameters.Listing.Listed exc orders.parameters t.parameters r.parameters r.pageSize
  departments : Departments.Listing.Listed orders.departments t.departments r.departments r.departmentSize

/-- **The listings are complete** exactly if no page of jobs ends between two jobs of the same instant. -/
theorem complete_iff {exc : String → String} {orders : Orders} {t : Tables} {r : Requests} (hlimit : 1 ≤ r.limit)
    (hsize : 1 ≤ r.pageSize) : Complete exc orders t r ↔ Jobs.Listing.NoTies t.jobs r.jobs r.limit := by
  have hjobs : Jobs.Listing.Listed orders.jobs t.jobs r.jobs r.limit ↔ _ := Jobs.Listing.listed_iff hlimit
  rw [← hjobs]
  constructor
  · intro h
    exact h.jobs
  · intro h
    exact ⟨h, Parameters.Listing.listed hsize, Departments.Listing.listed _ _ _ _⟩

/-- A job of an instant. -/
def acceptedAt (id : Pagination.Guid) (t : Pagination.Instant) : Jobs.Listing.JobRow where
  id := id
  kind := "echo"
  status := .accepted
  attempt := 0
  maxAttempts := 3
  lastError := none
  createdAt := t

/-- Two jobs, and nothing else. -/
def twoJobs (t u : Pagination.Instant) : Tables where
  jobs := { jobs := [acceptedAt ⟨0, by decide⟩ t, acceptedAt ⟨1, by decide⟩ u], flowRuns := [], ownJobs := .nil }
  parameters := { rows := [], ids := .nil }
  departments := { rows := [], ids := .nil }

/-- All that there is, one at a time. -/
def oneByOne : Requests where
  jobs := { visible := fun _ => true }
  limit := 1
  parameters := { visible := fun _ => true }
  pageSize := 1
  departments := { visible := fun _ => true, counts := fun _ => (0, 0, 0) }
  departmentSize := 1

def stable : Orders where
  jobs _ := .stable _
  parameters _ := .stable _
  departments _ := .stable _

theorem complete_two : Complete id stable (twoJobs ⟨0, by decide⟩ ⟨1, by decide⟩) oneByOne := by
  refine (complete_iff (by decide) (by decide)).mpr ?_
  exact Paging.gaps_of_nodup (by decide) (by decide)

/-- **Two jobs of the same instant**, one on a page: the second one is never listed. -/
theorem not_complete_tied : ¬ Complete id stable (twoJobs ⟨0, by decide⟩ ⟨0, by decide⟩) oneByOne := by
  intro h
  have hties := (Jobs.Listing.listed_iff (by decide)).mp h.jobs
  exact hties 0 _ _ rfl rfl rfl

end Irip.Listings
