import Irip.Common.Pagination
import Irip.Parameters.Entities

/-!
# `Parameters.Listing` — the pages of the parameter list

`list_parameters` sorts by `created_at` and `id`, and its cursor has both.
-/

namespace Irip.Parameters.Listing

open Pagination

/-! ## Rows -/

/-- What the list reads of a row of `parameter`. -/
structure ParameterRow where
  id : Guid
  variableCode : String
  objectId : Guid
  status : ParameterStatus
  createdAt : Instant

/-- The table, with its primary key. -/
structure Table where
  rows : List ParameterRow
  ids : (rows.map ParameterRow.id).Nodup

/-- What the list is asked for, of the parameters that the session sees. An empty text filters nothing. -/
structure Filters where
  visible : ParameterRow → Bool
  variableCode : Option String := none
  objectId : Option Guid := none
  status : Option String := none

/-- The parameter meets the filters. -/
def Filters.selects (f : Filters) (p : ParameterRow) : Bool :=
  f.visible p && f.variableCode.all (fun c => c == "" || p.variableCode == c) &&
    f.objectId.all (fun o => p.objectId == o) && f.status.all (fun s => s == "" || p.status.value == s)

/-- The parameters that are listed. -/
def Filters.parameters (f : Filters) (t : Table) : List ParameterRow := t.rows.filter f.selects

/-! ## Cursors -/

/-- `ORDER BY created_at, id`. -/
def ParameterRow.sortKey (p : ParameterRow) : Instant ×ₗ Guid := toLex (p.createdAt, p.id)

/-- The cursor of a row. -/
def encodeCursor (k : Instant ×ₗ Guid) : String :=
  encodePayload (.obj [("v", .str (Instant.text k.1)), ("id", .str (Guid.text k.2))])

/-- What a cursor says. It may not be one. -/
def decodeCursor (cursor : String) : Option (Instant ×ₗ Guid) :=
  match urlsafeB64decode cursor with
  | .error _ => none
  | .ok raw =>
    match loads raw with
    | some (.obj fields) => do
      let v ← fields.lookup "v"
      let id ← fields.lookup "id"
      let time ← (Jobs.scalarText v).bind readInstant
      let id ← readGuid id
      return toLex (time, id)
    | _ => none

theorem decodeCursor_encode (k : Instant ×ₗ Guid) : decodeCursor (encodeCursor k) = some k := by
  have hwritten : (Json.obj [("v", .str (Instant.text k.1)), ("id", .str (Guid.text k.2))]).Written :=
    written_pair (by simp) (.str _) (.str _)
  obtain ⟨raw, hraw, hloads⟩ := decodePayload_encode hwritten
  unfold decodeCursor encodeCursor
  simp [hraw, hloads, List.lookup_cons, Jobs.scalarText]
  rfl

/-! ## Pages -/

/-- An item of the list. -/
structure Item where
  parameterId : Guid
  variableCode : String
  objectId : Guid
  status : String

def ParameterRow.item (p : ParameterRow) : Item where
  parameterId := p.id
  variableCode := p.variableCode
  objectId := p.objectId
  status := p.status.value

/-- `Parameter.created_at > cursor_time OR (Parameter.created_at == cursor_time AND Parameter.id > cursor_id)`. -/
def isBehind (k : Instant ×ₗ Guid) (p : ParameterRow) : Bool :=
  decide (k.1 < p.createdAt) || (p.createdAt == k.1 && decide (k.2 < p.id))

/-- What is made of the parameters that meet the conditions. -/
def pageOf (order : Paging.OrderBy ParameterRow.sortKey) (found : List ParameterRow) (pageSize : Nat) :
    List Item × Option String :=
  let params := (order.sort found).take (pageSize + 1)
  let nextCursor := if pageSize < params.length then
      params[pageSize - 1]?.map (fun last => encodeCursor (toLex (last.createdAt, last.id)))
    else none
  ((params.take pageSize).map ParameterRow.item, nextCursor)

/-- `list_parameters`; `exc` is the text of the exception that a cursor raises. -/
def listParameters (exc : String → String) (order : Paging.OrderBy ParameterRow.sortKey) (t : Table) (f : Filters)
    (cursor : Option String) (pageSize : Nat) : Except AppError (List Item × Option String) :=
  match cursor with
  | none => .ok (pageOf order (f.parameters t) pageSize)
  | some cursor =>
    match decodeCursor cursor with
    | none => .error { code := "invalid_cursor", message := s!"分页游标无效: {exc cursor}",
                         fields := [("cursor", .str cursor)] }
    | some k => .ok (pageOf order ((f.parameters t).filter (isBehind k)) pageSize)

/-- A page as whoever follows the cursors sees it. -/
def pages (exc : String → String) (orders : Nat → Paging.OrderBy ParameterRow.sortKey) (t : Table) (f : Filters)
    (pageSize i : Nat) (cursor : Option String) : Except AppError (List Item × Option String) :=
  listParameters exc (orders i) t f cursor pageSize

/-! ## Result -/

section Result

variable {exc : String → String} {orders : Nat → Paging.OrderBy ParameterRow.sortKey} {t : Table} {f : Filters}
  {pageSize : Nat}

/-- Following the cursors from the first page on ends, and lists every parameter once, in order. -/
def Listed (exc : String → String) (orders : Nat → Paging.OrderBy ParameterRow.sortKey) (t : Table) (f : Filters)
    (pageSize : Nat) : Prop :=
  ∃ out : List ParameterRow, Paging.follow (pages exc orders t f pageSize) (t.rows.length + 1) 0 none =
      some (.ok (out.map ParameterRow.item)) ∧
    Paging.Sorts ParameterRow.sortKey (f.parameters t) out

theorem isBehind_eq (k : Instant ×ₗ Guid) : isBehind k = Paging.beyond ParameterRow.sortKey (some k) := by
  funext p
  unfold isBehind Paging.beyond ParameterRow.sortKey
  rw [Bool.eq_iff_iff]
  simp only [Bool.or_eq_true, Bool.and_eq_true, decide_eq_true_eq, beq_iff_eq, Prod.Lex.lt_iff]
  constructor
  · rintro (hlt | ⟨heq, hlt⟩)
    · exact .inl hlt
    · exact .inr ⟨heq.symm, hlt⟩
  · rintro (hlt | ⟨heq, hlt⟩)
    · exact .inl hlt
    · exact .inr ⟨heq.symm, hlt⟩

theorem pageOf_eq (hsize : 1 ≤ pageSize) (order : Paging.OrderBy ParameterRow.sortKey) (rows : List ParameterRow)
    (after : Option (Instant ×ₗ Guid)) :
    pageOf order (rows.filter (Paging.beyond ParameterRow.sortKey after)) pageSize =
      ((Paging.page order rows pageSize after).1.map ParameterRow.item,
        (Paging.page order rows pageSize after).2.map encodeCursor) := by
  unfold pageOf Paging.page
  dsimp only
  split
  · next hlong =>
      -- the row with that index is the last one of the page
      have hlast := Paging.getLast?_take hsize hlong
      rw [hlast, Option.map_map]
      rfl
  · rfl

theorem pages_eq (exc : String → String) (orders : Nat → Paging.OrderBy ParameterRow.sortKey) (t : Table) (f : Filters)
    (hsize : 1 ≤ pageSize) (i : Nat) (after : Option (Instant ×ₗ Guid)) :
    pages exc orders t f pageSize i (after.map encodeCursor) =
      .ok ((Paging.page (orders i) (f.parameters t) pageSize after).1.map ParameterRow.item,
        (Paging.page (orders i) (f.parameters t) pageSize after).2.map encodeCursor) := by
  rw [← pageOf_eq hsize]
  cases after with
  | none =>
    have hall : (f.parameters t).filter (Paging.beyond ParameterRow.sortKey none) = f.parameters t :=
      List.filter_eq_self.mpr (fun _ _ => rfl)
    rw [hall]
    rfl
  | some k =>
    simp only [pages, listParameters, Option.map_some, decodeCursor_encode, isBehind_eq]

/-- **The parameter list is complete.** -/
theorem listed (hsize : 1 ≤ pageSize) : Listed exc orders t f pageSize := by
  have hfuel : (f.parameters t).length < t.rows.length + 1 := Nat.lt_succ_of_le (List.length_filter_le _ _)
  obtain ⟨out, hout, hsorts, -⟩ := Paging.collect_all orders hsize hfuel
  have hfollow := Paging.follow_encode (pages_eq exc orders t f hsize)
    (t.rows.length + 1) 0 none
  rw [Option.map_none, hout, Option.map_some] at hfollow
  refine ⟨out, hfollow, hsorts (Paging.gaps_of_nodup hsize ?_)⟩
  -- no two parameters have the same id, let alone the same key
  have hids : ((f.parameters t).map ParameterRow.id).Nodup :=
    t.ids.sublist ((List.filter_sublist (p := f.selects)).map ParameterRow.id)
  have hmap : (f.parameters t).map ParameterRow.id =
      ((f.parameters t).map ParameterRow.sortKey).map (fun k => k.2) := by
    rw [List.map_map]
    rfl
  rw [hmap] at hids
  exact List.Nodup.of_map _ hids

end Result

end Irip.Parameters.Listing
