import Irip.Common.Pagination
import Irip.Departments.Entities

/-!
# `Departments.Listing` — the pages of the department list

`list_all` sorts by `sort_order`, `created_at` and `id`, and its cursor has all three.
-/

namespace Irip.Departments.Listing

open Pagination

/-! ## Rows -/

/-- What the list reads of a row of `department`. -/
structure DepartmentRow where
  id : Guid
  code : String
  displayName : String
  status : String
  sortOrder : Int
  createdAt : Instant

/-- The table, with its primary key. -/
structure Table where
  rows : List DepartmentRow
  ids : (rows.map DepartmentRow.id).Nodup

/-- What the list is asked for, of the departments that the session sees; and the numbers of members, children and
pieces of equipment that are counted for a department. -/
structure Query where
  visible : DepartmentRow → Bool
  status : Option String := none
  counts : Guid → Nat × Nat × Nat

def Query.selects (q : Query) (d : DepartmentRow) : Bool := q.visible d && q.status.all (fun s => d.status == s)

/-- The departments that are listed. -/
def Query.departments (q : Query) (t : Table) : List DepartmentRow := t.rows.filter q.selects

/-! ## Cursors -/

/-- A sort order, an instant and an id. -/
abbrev Key := Int ×ₗ (Instant ×ₗ Guid)

instance instLinearOrderKey : LinearOrder Key :=
  @Prod.Lex.instLinearOrder Int (Instant ×ₗ Guid) Int.instLinearOrder instLinearOrderInstantGuid

/-- `ORDER BY sort_order, created_at, id`. -/
def DepartmentRow.sortKey (d : DepartmentRow) : Key := toLex (d.sortOrder, toLex (d.createdAt, d.id))

def encodeCursor (k : Key) : String :=
  encodePayload (.obj [("v", .obj [("so", .int k.1), ("ct", .str (Instant.text k.2.1))]),
    ("id", .str (Guid.text k.2.2))])

/-- `int(value)` of a decoded value. -/
def readInt : Json → Option Int
  | .int i => some i
  | .bool b => some (if b then 1 else 0)
  | .str s => pyInt? s
  | _ => none

def invalidCursor (cursor detail : String) : AppError where
  code := "invalid_cursor"
  message := s!"分页游标无效：{detail}"
  fields := [("cursor", .str cursor)]

/-- `_decode_cursor`, behind the JSON text. -/
def decodeFields (cursor : String) (fields : List (String × Json)) : Except AppError Key :=
  match fields.lookup "v", fields.lookup "id" with
  | some (.obj v), some id =>
    match v.lookup "so", v.lookup "ct" with
    | some so, some ct =>
      match readInt so with
      | none => .error (invalidCursor cursor "so 字段不是整数")
      | some sortOrder =>
        match (Jobs.scalarText ct).bind readInstant with
        | none => .error (invalidCursor cursor "ct 字段不是合法 ISO 时间")
        | some createdAt =>
          match readGuid id with
          | none => .error (invalidCursor cursor "id 字段不是合法 UUID")
          | some id => .ok (toLex (sortOrder, toLex (createdAt, id)))
    | _, _ => .error (invalidCursor cursor "缺少排序字段 so / ct")
  | some _, some _ => .error (invalidCursor cursor "缺少排序字段 so / ct")
  | _, _ => .error (invalidCursor cursor "缺少必要字段 v / id")

def decodeCursor (cursor : String) : Except AppError Key :=
  match urlsafeB64decode cursor with
  | .error _ => .error (invalidCursor cursor "base64url 解码失败")
  | .ok raw =>
    match loads raw with
    | none => .error (invalidCursor cursor "JSON 解析失败")
    | some (.obj fields) => decodeFields cursor fields
    | some _ => .error (invalidCursor cursor "缺少必要字段 v / id")

theorem decodeCursor_encode (k : Key) : decodeCursor (encodeCursor k) = .ok k := by
  have hsort : (Json.obj [("so", .int k.1), ("ct", .str (Instant.text k.2.1))]).Written :=
    written_pair (by simp) (.int _) (.str _)
  have hwritten : (Json.obj [("v", .obj [("so", .int k.1), ("ct", .str (Instant.text k.2.1))]),
      ("id", .str (Guid.text k.2.2))]).Written := written_pair (by simp) hsort (.str _)
  obtain ⟨raw, hraw, hloads⟩ := decodePayload_encode hwritten
  unfold decodeCursor encodeCursor
  simp only [hraw, hloads, decodeFields, List.lookup_cons, String.reduceBEq, Jobs.scalarText, readInt, beq_self_eq_true,
    Option.bind_some, readInstant_text, readGuid_text]
  rfl

/-! ## Pages -/

/-- A department with its counts. -/
structure Item where
  department : DepartmentRow
  memberCount : Nat
  childrenCount : Nat
  equipmentCount : Nat

def Query.item (q : Query) (d : DepartmentRow) : Item where
  department := d
  memberCount := (q.counts d.id).1
  childrenCount := (q.counts d.id).2.1
  equipmentCount := (q.counts d.id).2.2

/-- `sort_order > … OR (sort_order == … AND created_at > …) OR (sort_order == … AND created_at == … AND id > …)`. -/
def isBehind (k : Key) (d : DepartmentRow) : Bool :=
  decide (k.1 < d.sortOrder) || (d.sortOrder == k.1 && decide (k.2.1 < d.createdAt)) ||
    (d.sortOrder == k.1 && d.createdAt == k.2.1 && decide (k.2.2 < d.id))

def selectList (order : Paging.OrderBy DepartmentRow.sortKey) (t : Table) (q : Query) (cursor : Option Key)
    (limit : Nat) : List Item :=
  let found := match cursor with
    | none => q.departments t
    | some k => (q.departments t).filter (isBehind k)
  ((order.sort found).take limit).map q.item

/-- `min(max(limit, 1), MAX_PAGE_SIZE)`. -/
def effectiveLimit (limit : Int) : Nat := (min (max limit 1) 100).toNat

/-- What is made of the departments that were selected. -/
def pageOf (rows : List Item) (limit : Nat) : List Item × Option String × Bool :=
  let hasMore := decide (limit < rows.length)
  let pageItems := rows.take limit
  let nextCursor := if hasMore then pageItems.getLast?.map (fun last =>
      encodeCursor (toLex (last.department.sortOrder, toLex (last.department.createdAt, last.department.id))))
    else none
  (pageItems, nextCursor, hasMore)

/-- `list_all`: the items, the next cursor, and whether there is more. -/
def listAll (order : Paging.OrderBy DepartmentRow.sortKey) (t : Table) (q : Query) (cursor : Option String)
    (limit : Int) : Except AppError (List Item × Option String × Bool) :=
  let fetchLimit := effectiveLimit limit + 1
  match cursor with
  | none => .ok (pageOf (selectList order t q none fetchLimit) (effectiveLimit limit))
  | some cursor =>
    match decodeCursor cursor with
    | .error e => .error e
    | .ok k => .ok (pageOf (selectList order t q (some k) fetchLimit) (effectiveLimit limit))

/-- A page as whoever follows the cursors sees it. -/
def pages (orders : Nat → Paging.OrderBy DepartmentRow.sortKey) (t : Table) (q : Query) (limit : Int) (i : Nat)
    (cursor : Option String) : Except AppError (List Item × Option String) :=
  (listAll (orders i) t q cursor limit).map (fun (items, nextCursor, _) => (items, nextCursor))

/-! ## Result -/

section Result

variable {orders : Nat → Paging.OrderBy DepartmentRow.sortKey} {t : Table} {q : Query} {limit : Int}

/-- Following the cursors from the first page on ends, and lists every department once, in order. -/
def Listed (orders : Nat → Paging.OrderBy DepartmentRow.sortKey) (t : Table) (q : Query) (limit : Int) : Prop :=
  ∃ items, Paging.follow (pages orders t q limit) (t.rows.length + 1) 0 none = some (.ok items) ∧
    Paging.Sorts DepartmentRow.sortKey (q.departments t) (items.map Item.department)

theorem isBehind_eq (k : Key) : isBehind k = Paging.beyond DepartmentRow.sortKey (some k) := by
  funext d
  unfold isBehind Paging.beyond DepartmentRow.sortKey
  rw [Bool.eq_iff_iff]
  simp only [Bool.or_eq_true, Bool.and_eq_true, decide_eq_true_eq, beq_iff_eq, Prod.Lex.lt_iff]
  constructor
  · rintro ((hlt | ⟨horder, hlt⟩) | ⟨⟨horder, htime⟩, hlt⟩)
    · exact .inl hlt
    · exact .inr ⟨horder.symm, .inl hlt⟩
    · exact .inr ⟨horder.symm, .inr ⟨htime.symm, hlt⟩⟩
  · rintro (hlt | ⟨horder, hlt | ⟨htime, hlt⟩⟩)
    · exact .inl (.inl hlt)
    · exact .inl (.inr ⟨horder.symm, hlt⟩)
    · exact .inr ⟨⟨horder.symm, htime.symm⟩, hlt⟩

theorem selectList_eq (order : Paging.OrderBy DepartmentRow.sortKey) (cursor : Option Key) (n : Nat) :
    selectList order t q cursor n =
      ((order.sort ((q.departments t).filter (Paging.beyond DepartmentRow.sortKey cursor))).take n).map q.item := by
  unfold selectList
  cases cursor with
  | none =>
    have hall : (q.departments t).filter (Paging.beyond DepartmentRow.sortKey none) = q.departments t :=
      List.filter_eq_self.mpr (fun _ _ => rfl)
    rw [hall]
  | some k => simp only [isBehind_eq]

theorem pageOf_eq (order : Paging.OrderBy DepartmentRow.sortKey) (cursor : Option Key) (n : Nat) :
    (pageOf (selectList order t q cursor (n + 1)) n).1 = (Paging.page order (q.departments t) n cursor).1.map q.item ∧
      (pageOf (selectList order t q cursor (n + 1)) n).2.1 =
        (Paging.page order (q.departments t) n cursor).2.map encodeCursor := by
  rw [selectList_eq]
  unfold pageOf Paging.page
  simp only [decide_eq_true_eq, List.length_map]
  refine ⟨List.map_take.symm, ?_⟩
  split
  · rw [← List.map_take, List.getLast?_map, Option.map_map, Option.map_map]
    rfl
  · rfl

theorem pages_eq (orders : Nat → Paging.OrderBy DepartmentRow.sortKey) (t : Table) (q : Query) (limit : Int) (i : Nat)
    (after : Option Key) :
    pages orders t q limit i (after.map encodeCursor) =
      .ok ((Paging.page (orders i) (q.departments t) (effectiveLimit limit) after).1.map q.item,
        (Paging.page (orders i) (q.departments t) (effectiveLimit limit) after).2.map encodeCursor) := by
  obtain ⟨hitems, hnext⟩ := pageOf_eq (t := t) (q := q) (orders i) after (effectiveLimit limit)
  rw [← hitems, ← hnext]
  cases after with
  | none => rfl
  | some k =>
    simp only [pages, listAll, Option.map_some, decodeCursor_encode]
    rfl

/-- **The department list is complete.** -/
theorem listed (orders : Nat → Paging.OrderBy DepartmentRow.sortKey) (t : Table) (q : Query) (limit : Int) :
    Listed orders t q limit := by
  have hlimit : 1 ≤ effectiveLimit limit := by
    unfold effectiveLimit
    omega
  have hfuel : (q.departments t).length < t.rows.length + 1 := Nat.lt_succ_of_le (List.length_filter_le _ _)
  obtain ⟨out, hout, hsorts, -⟩ := Paging.collect_all orders hlimit hfuel
  have hfollow := Paging.follow_encode (pages_eq orders t q limit)
    (t.rows.length + 1) 0 none
  rw [Option.map_none, hout, Option.map_some] at hfollow
  refine ⟨out.map q.item, hfollow, ?_⟩
  rw [List.map_map, show Item.department ∘ q.item = id from rfl, List.map_id]
  apply hsorts
  apply Paging.gaps_of_nodup hlimit
  -- no two departments have the same id, let alone the same key
  have hids : ((q.departments t).map DepartmentRow.id).Nodup :=
    t.ids.sublist ((List.filter_sublist (p := q.selects)).map DepartmentRow.id)
  have hmap : (q.departments t).map DepartmentRow.id =
      ((q.departments t).map DepartmentRow.sortKey).map (fun k => k.2.2) := by
    rw [List.map_map]
    rfl
  rw [hmap] at hids
  exact List.Nodup.of_map _ hids

end Result

end Irip.Departments.Listing
