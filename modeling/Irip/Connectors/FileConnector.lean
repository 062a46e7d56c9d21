import Irip.Base.Dict
import Irip.Common

/-!
# `Connectors.FileConnector` — reading the records of a CSV or JSON file

`read` goes through the reader of the preview: it asks for as many rows as a preview may have at most, and then puts each
row under the names of the columns.
-/

namespace Irip.Connectors

/-! ## Files -/

/-- What a JSON array holds. -/
inductive Item where
  | obj (fields : Dict String Json)
  | other (value : Json)

/-- The content of a file, decoded: what `csv.reader` yields, or the array that `json.loads` returns. -/
inductive Content where
  | csv (lines : List (List String))
  | json (data : Option (List Item))

structure Artifact where
  size : ℕ
  content : Content

def maxPreviewRows : ℤ := 10000

def maxPreviewBytes : ℕ := 256 * 1024 * 1024

/-! ## Rows -/

/-- The columns and the rows. -/
abbrev Rows := List String × List (List Json)

def fileTooLarge (format : String) : AppError :=
  { code := "file_too_large", message := format ++ " 文件超过大小限制: " ++ toString maxPreviewBytes ++ " 字节"
    fields := [("max_bytes", .int maxPreviewBytes)] }

def notAnArray : AppError :=
  { code := "validation_failed", message := "JSON 文件顶层必须是对象数组", fields := [("format", .str "json")] }

/-- The rows of `_read_csv_stream`. -/
def csvRows (limit : ℤ) : List (List String) → Rows
  | [] => ([], [])
  | header :: lines => (header, (lines.take limit.toNat).map (fun cells => cells.map Json.str))

/-- `data[:limit]`. -/
def upTo {α : Type} (limit : ℤ) (data : List α) : List α :=
  data.take (if 0 ≤ limit then limit else data.length + limit).toNat

/-- `columns`, with the keys of one more object. -/
def addColumns (columns : List String) : Item → List String
  | .obj fields => fields.keys.foldl (fun columns key => if key ∈ columns then columns else columns ++ [key]) columns
  | .other _ => columns

/-- The row of an object: its values under the columns, and `None` under the others. -/
def itemRow (columns : List String) : Item → Option (List Json)
  | .obj fields => some (columns.map (fun col => fields.getD col .null))
  | .other _ => none

/-- The rows of `_read_json_stream`. -/
def jsonRows (limit : ℤ) (data : List Item) : Rows :=
  let columns := (upTo limit data).foldl addColumns []
  (columns, (upTo limit data).filterMap (itemRow columns))

/-- `_read_rows_from_stream`. -/
def readRows (a : Artifact) (limit : ℤ) : Except AppError Rows :=
  match a.content with
  | .csv lines => if maxPreviewBytes < a.size then .error (fileTooLarge "CSV") else .ok (csvRows limit lines)
  | .json data =>
    if maxPreviewBytes < a.size then .error (fileTooLarge "JSON")
    else
      match data with
      | some items => .ok (jsonRows limit items)
      | none => .error notAnArray

/-! ## Records -/

/-- `None if value is None else str(value)`. -/
def fieldText : Json → Option String
  | .null => none
  | value => some value.pyStr

/-- `SourceRecord.fields` of a row. -/
def recordOf (columns : List String) (row : List Json) : Dict String (Option String) :=
  Dict.ofList (columns.zipIdx.map (fun (col, idx) => (col, fieldText (row[idx]?.getD .null))))

def read (a : Artifact) : Except AppError (List (Dict String (Option String))) :=
  (readRows a maxPreviewRows).map (fun (columns, rows) => rows.map (recordOf columns))

def preview (a : Artifact) (limit : ℤ) : Except AppError Rows := readRows a (min limit maxPreviewRows)

/-! ## Completeness -/

/-- A value of a data record and the column it belongs to, if there is one. -/
abbrev Field := Option String × Json

/-- The fields of a line of a CSV file. -/
def lineFields (header cells : List String) : List Field := cells.zipIdx.map (fun (value, idx) => (header[idx]?, .str value))

/-- The fields of an item of a JSON array. -/
def itemFields : Item → List Field
  | .obj fields => fields.entries.map (fun (key, value) => (some key, value))
  | .other value => [(none, value)]

/-- The data records of a file. -/
def Content.records : Content → List (List Field)
  | .csv [] => []
  | .csv (header :: lines) => lines.map (lineFields header)
  | .json data => (data.getD []).map itemFields

/-- The record has every field under its column. -/
def Holds (record : Dict String (Option String)) (fields : List Field) : Prop :=
  ∀ f ∈ fields, ∃ col, f.1 = some col ∧ record.get? col = some (fieldText f.2)

/-- The row has every field at the place of its column. -/
def Shows (columns : List String) (row : List Json) (fields : List Field) : Prop :=
  ∀ f ∈ fields, ∃ idx : ℕ, columns[idx]? = f.1 ∧ row[idx]? = some f.2

/-- Reading is complete, and the preview is its prefix. -/
structure Complete (a : Artifact) (limit : ℤ) : Prop where
  read : ∃ records, read a = .ok records ∧ List.Forall₂ Holds records a.content.records
  preview : ∃ columns rows, preview a limit = .ok (columns, rows) ∧
    List.Forall₂ (Shows columns) rows (a.content.records.take (min limit maxPreviewRows).toNat)

/-- The line is not longer than the header, and holds the same value again wherever the name of a column is repeated. -/
def LineFits (header cells : List String) : Prop :=
  cells.length ≤ header.length ∧
    ∀ i j, i < j → i < cells.length → j < header.length → header[j]? = header[i]? → cells[j]? = cells[i]?

/-- The file has few lines, each of which fits the header; or it is an array of few objects, and the limit does not cut
it from behind. -/
def Content.Fits (limit : ℤ) : Content → Prop
  | .csv [] => True
  | .csv (header :: lines) => (lines.length : ℤ) ≤ maxPreviewRows ∧ ∀ cells ∈ lines, LineFits header cells
  | .json none => False
  | .json (some items) =>
    (items.length : ℤ) ≤ maxPreviewRows ∧ (∀ item ∈ items, ∃ fields, item = .obj fields) ∧
      (0 ≤ limit ∨ (items.length : ℤ) ≤ -limit)

/-! ### Lists -/

theorem forall₂_take_iff {α : Type} {R : α → α → Prop} {n : ℕ} {xs : List α} :
    List.Forall₂ R (xs.take n) xs ↔ xs.length ≤ n ∧ ∀ x ∈ xs, R x x := by
  constructor
  · intro h
    have hlength := h.length_eq
    rw [List.length_take] at hlength
    have hle : xs.length ≤ n := by omega
    rw [List.take_of_length_le hle] at h
    exact ⟨hle, List.forall₂_same.mp h⟩
  · rintro ⟨hle, h⟩
    rw [List.take_of_length_le hle]
    exact List.forall₂_same.mpr h

theorem get?_ofList_iff {es : List (String × Option String)} {k : String} {a : Option String} :
    (Dict.ofList es).get? k = some a ↔
      ∃ j : ℕ, es[j]? = some (k, a) ∧ ∀ m > j, ∀ e, es[m]? = some e → e.1 ≠ k := by
  rw [Dict.get?_ofList, Option.map_eq_some_iff]
  constructor
  · rintro ⟨⟨k', a'⟩, hfind, rfl⟩
    obtain ⟨hk, i, hi, hget, hlater⟩ := List.find?_eq_some_iff_getElem.mp hfind
    obtain rfl : k' = k := by simpa using hk
    rw [List.length_reverse] at hi
    refine ⟨es.length - 1 - i, ?_, fun m hm e he => ?_⟩
    · rw [List.getElem_reverse] at hget
      rw [List.getElem?_eq_getElem (by omega), hget]
    · obtain ⟨hm', rfl⟩ := List.getElem?_eq_some_iff.mp he
      have := hlater (es.length - 1 - m) (by omega)
      rw [List.getElem_reverse] at this
      simpa [show es.length - 1 - (es.length - 1 - m) = m by omega] using this
  · rintro ⟨j, hj, hlater⟩
    obtain ⟨hj', hget⟩ := List.getElem?_eq_some_iff.mp hj
    refine ⟨(k, a), List.find?_eq_some_iff_getElem.mpr ⟨by simp, es.length - 1 - j, ?_, ?_, fun i hi => ?_⟩, rfl⟩
    · rw [List.length_reverse]
      omega
    · rw [List.getElem_reverse]
      simpa [show es.length - 1 - (es.length - 1 - j) = j by omega] using hget
    · rw [List.getElem_reverse]
      simpa using hlater (es.length - 1 - i) (by omega) _ (List.getElem?_eq_getElem (by omega))

variable {columns : List String}

theorem get?_recordOf_iff {row : List Json} {col : String} {a : Option String} :
    (recordOf columns row).get? col = some a ↔ ∃ j : ℕ, columns[j]? = some col ∧
      (∀ m > j, columns[m]? ≠ some col) ∧ a = fieldText (row[j]?.getD .null) := by
  have hcell : ∀ j : ℕ, (columns.zipIdx.map (fun (col, idx) => (col, fieldText (row[idx]?.getD .null))))[j]? =
      columns[j]?.map (fun col => (col, fieldText (row[j]?.getD .null))) := by
    intro j
    rw [List.getElem?_map, List.getElem?_zipIdx, Nat.zero_add, Option.map_map]
    rfl
  rw [recordOf, get?_ofList_iff]
  simp only [hcell, Option.map_eq_some_iff, Prod.mk.injEq, ne_eq]
  constructor
  · rintro ⟨j, ⟨_, hj, rfl, rfl⟩, hlater⟩
    exact ⟨j, hj, fun m hm hcol => hlater m hm _ ⟨_, hcol, rfl⟩ rfl, rfl⟩
  · rintro ⟨j, hj, hlater, rfl⟩
    refine ⟨j, ⟨_, hj, rfl, rfl⟩, fun m hm e he => ?_⟩
    obtain ⟨c, hc, rfl⟩ := he
    rintro rfl
    exact hlater m hm hc

theorem exists_get?_recordOf (row : List Json) {i : ℕ} {col : String}
    (h : columns[i]? = some col) : ∃ a, (recordOf columns row).get? col = some a := by
  rw [← Dict.mem_keys_iff, recordOf, Dict.mem_keys_ofList, List.map_map]
  refine List.mem_iff_getElem?.mpr ⟨i, ?_⟩
  rw [List.getElem?_map, List.getElem?_zipIdx, h]
  rfl

/-! ### Lines -/

theorem holds_line_iff {header cells : List String} :
    Holds (recordOf header (cells.map Json.str)) (lineFields header cells) ↔ LineFits header cells := by
  have hvalue : ∀ {i : ℕ} {v : String}, cells[i]? = some v → fieldText ((cells.map Json.str)[i]?.getD .null) = some v := by
    intro i v hv
    rw [List.getElem?_map, hv]
    rfl
  have hfields : Holds (recordOf header (cells.map Json.str)) (lineFields header cells) ↔ ∀ (i : ℕ) (v : String),
      cells[i]? = some v →
        ∃ col, header[i]? = some col ∧ (recordOf header (cells.map Json.str)).get? col = some (some v) := by
    constructor
    · intro h i v hv
      refine h (header[i]?, .str v) (List.mem_map.mpr ⟨(v, i), ?_, rfl⟩)
      exact List.mem_zipIdx_iff_getElem?.mpr hv
    · rintro h f hf
      obtain ⟨⟨v, i⟩, hmem, rfl⟩ := List.mem_map.mp hf
      exact h i v (List.mem_zipIdx_iff_getElem?.mp hmem)
  rw [hfields]
  constructor
  · intro h
    refine ⟨?_, fun i j hij hi hj hcol => ?_⟩
    · by_contra hlong
      obtain ⟨col, hcol, -⟩ := h header.length _ (List.getElem?_eq_getElem (by omega))
      simp at hcol
    · obtain ⟨col, hi', hget⟩ := h i _ (List.getElem?_eq_getElem hi)
      obtain ⟨l, hl, hlast, hvalue'⟩ := get?_recordOf_iff.mp hget
      -- the last column of the name has the value, so that the line goes up to it
      have hjl : j ≤ l := by
        by_contra hlt
        exact hlast j (by omega) (hcol.trans hi')
      have hll : l < cells.length := by
        by_contra hend
        rw [List.getElem?_map, List.getElem?_eq_none (by omega)] at hvalue'
        cases hvalue'
      obtain ⟨col', hj', hget'⟩ := h j _ (List.getElem?_eq_getElem (show j < cells.length by omega))
      obtain rfl : col = col' := Option.some.inj (hi'.symm.trans (hcol.symm.trans hj'))
      rw [List.getElem?_eq_getElem hi, List.getElem?_eq_getElem (show j < cells.length by omega)]
      exact Option.some.inj (hget'.symm.trans hget)
  · rintro ⟨hlength, hsame⟩ i v hv
    obtain ⟨hi, rfl⟩ := List.getElem?_eq_some_iff.mp hv
    have hcol : header[i]? = some header[i] := List.getElem?_eq_getElem (by omega)
    obtain ⟨a, ha⟩ := exists_get?_recordOf (cells.map Json.str) hcol
    obtain ⟨l, hl, hlast, rfl⟩ := get?_recordOf_iff.mp ha
    refine ⟨_, hcol, ha.trans (congrArg some ?_)⟩
    rcases Nat.lt_trichotomy i l with hlt | rfl | hgt
    · obtain ⟨hl', -⟩ := List.getElem?_eq_some_iff.mp hl
      exact hvalue ((hsame i l hlt hi hl' (hl.trans hcol.symm)).trans hv)
    · exact hvalue hv
    · exact absurd hcol (hlast i hgt)

theorem shows_line (header cells : List String) : Shows header (cells.map Json.str) (lineFields header cells) := by
  intro f hf
  obtain ⟨⟨v, i⟩, hmem, rfl⟩ := List.mem_map.mp hf
  refine ⟨i, rfl, ?_⟩
  rw [List.getElem?_map, List.mem_zipIdx_iff_getElem?.mp hmem]
  rfl

/-! ### Objects -/

theorem mem_addKeys {k : String} : ∀ {keys columns : List String},
    k ∈ keys.foldl (fun columns key => if key ∈ columns then columns else columns ++ [key]) columns ↔
      k ∈ columns ∨ k ∈ keys
  | [], columns => by simp
  | key :: keys, columns => by
    rw [List.foldl_cons, mem_addKeys]
    split
    · next hmem =>
      constructor
      · rintro (h | h)
        · exact .inl h
        · exact .inr (List.mem_cons_of_mem _ h)
      · rintro (h | h)
        · exact .inl h
        · rcases List.mem_cons.mp h with rfl | h
          · exact .inl hmem
          · exact .inr h
    · simp [or_assoc]

theorem mem_columns {k : String} {fields : Dict String Json} (hk : k ∈ fields.keys) :
    ∀ {items : List Item} {columns : List String}, .obj fields ∈ items ∨ k ∈ columns → k ∈ items.foldl addColumns columns
  | [], columns, h => h.resolve_left List.not_mem_nil
  | item :: items, columns, h => by
    rw [List.foldl_cons]
    refine mem_columns hk ?_
    have hold : k ∈ columns → k ∈ addColumns columns item := by
      intro hmem
      cases item with
      | obj _ => exact mem_addKeys.mpr (.inl hmem)
      | other _ => exact hmem
    rcases h with h | h
    · rcases List.mem_cons.mp h with rfl | h
      · exact .inr (mem_addKeys.mpr (.inr hk))
      · exact .inl h
    · exact .inr (hold h)

section Objects

variable {columns : List String} {fields : Dict String Json}

theorem holds_object (hkeys : ∀ k ∈ fields.keys, k ∈ columns) :
    Holds (recordOf columns (columns.map (fun col => fields.getD col .null))) (itemFields (.obj fields)) := by
  intro f hf
  obtain ⟨⟨k, v⟩, hmem, rfl⟩ := List.mem_map.mp hf
  have hget : fields.get? k = some v := Dict.get?_eq_some_iff.mpr hmem
  obtain ⟨i, hi⟩ := List.mem_iff_getElem?.mp (hkeys k (Dict.mem_keys_iff.mpr ⟨v, hget⟩))
  obtain ⟨a, ha⟩ := exists_get?_recordOf (columns.map (fun col => fields.getD col .null)) hi
  obtain ⟨j, hj, -, rfl⟩ := get?_recordOf_iff.mp ha
  refine ⟨k, rfl, ha.trans ?_⟩
  rw [List.getElem?_map, hj, Option.map_some, Option.getD_some, Dict.getD, hget]
  rfl

theorem shows_object (hkeys : ∀ k ∈ fields.keys, k ∈ columns) :
    Shows columns (columns.map (fun col => fields.getD col .null)) (itemFields (.obj fields)) := by
  intro f hf
  obtain ⟨⟨k, v⟩, hmem, rfl⟩ := List.mem_map.mp hf
  have hget : fields.get? k = some v := Dict.get?_eq_some_iff.mpr hmem
  obtain ⟨i, hi⟩ := List.mem_iff_getElem?.mp (hkeys k (Dict.mem_keys_iff.mpr ⟨v, hget⟩))
  refine ⟨i, hi, ?_⟩
  rw [List.getElem?_map, hi, Option.map_some, Dict.getD, hget]
  rfl

end Objects

theorem forall₂_rows {R : List Json → List Field → Prop} {shown : List Item}
    (hobjects : ∀ item ∈ shown, ∃ fields, item = .obj fields)
    (h : ∀ fields, .obj fields ∈ shown → R (columns.map (fun col => fields.getD col .null)) (itemFields (.obj fields))) :
    List.Forall₂ R (shown.filterMap (itemRow columns)) (shown.map itemFields) := by
  induction shown with
  | nil => exact .nil
  | cons item shown ih =>
    obtain ⟨fields, rfl⟩ := hobjects _ List.mem_cons_self
    refine .cons (h fields List.mem_cons_self) (ih (fun i hi => hobjects i (List.mem_cons_of_mem _ hi)) fun f hf => ?_)
    exact h f (List.mem_cons_of_mem _ hf)

theorem rows_shown (shown : List Item) (hobjects : ∀ item ∈ shown, ∃ fields, item = .obj fields) :
    List.Forall₂ Holds ((shown.filterMap (itemRow (shown.foldl addColumns []))).map (recordOf (shown.foldl addColumns [])))
        (shown.map itemFields) ∧
      List.Forall₂ (Shows (shown.foldl addColumns [])) (shown.filterMap (itemRow (shown.foldl addColumns [])))
        (shown.map itemFields) := by
  have hkeys : ∀ {fields : Dict String Json}, .obj fields ∈ shown → ∀ k ∈ fields.keys, k ∈ shown.foldl addColumns [] :=
    fun hmem k hk => mem_columns hk (.inl hmem)
  rw [List.forall₂_map_left_iff]
  exact ⟨forall₂_rows hobjects fun _ hmem => holds_object (hkeys hmem),
    forall₂_rows hobjects fun _ hmem => shows_object (hkeys hmem)⟩

theorem objects_of_length {limit : ℤ} {items : List Item}
    (h : ((upTo limit items).filterMap (itemRow columns)).length = items.length) :
    upTo limit items = items ∧ ∀ item ∈ items, ∃ fields, item = .obj fields := by
  have hrows := List.length_filterMap_le (itemRow columns) (upTo limit items)
  have hshown : upTo limit items = items := by
    refine List.take_of_length_le ?_
    have hle : (upTo limit items).length = min _ items.length := List.length_take
    omega
  rw [hshown] at h
  refine ⟨hshown, fun item hitem => ?_⟩
  have hsome := List.filterMap_length_eq_length.mp h item hitem
  cases item with
  | obj fields => exact ⟨fields, rfl⟩
  | other _ => cases hsome

/-! ## Result -/

section Result

variable {size : ℕ} (hsize : size ≤ maxPreviewBytes) (limit : ℤ)
include hsize

theorem readRows_csv (lines : List (List String)) : readRows ⟨size, .csv lines⟩ limit = .ok (csvRows limit lines) :=
  if_neg (Nat.not_lt.mpr hsize)

theorem readRows_json (items : List Item) : readRows ⟨size, .json (some items)⟩ limit = .ok (jsonRows limit items) :=
  if_neg (Nat.not_lt.mpr hsize)

theorem readRows_none : readRows ⟨size, .json none⟩ limit = .error notAnArray := if_neg (Nat.not_lt.mpr hsize)

theorem complete_csv_iff (header : List String) (lines : List (List String)) :
    Complete ⟨size, .csv (header :: lines)⟩ limit ↔
      (lines.length : ℤ) ≤ maxPreviewRows ∧ ∀ cells ∈ lines, LineFits header cells := by
  have hrecords : List.Forall₂ Holds (((lines.take maxPreviewRows.toNat).map (fun cells => cells.map Json.str)).map
      (recordOf header)) (lines.map (lineFields header)) ↔
        (lines.length : ℤ) ≤ maxPreviewRows ∧ ∀ cells ∈ lines, LineFits header cells := by
    rw [List.map_map, List.forall₂_map_left_iff, List.forall₂_map_right_iff, forall₂_take_iff]
    refine and_congr ?_ (forall₂_congr fun cells _ => holds_line_iff)
    show lines.length ≤ 10000 ↔ (lines.length : ℤ) ≤ 10000
    omega
  rw [← hrecords]
  constructor
  · rintro ⟨⟨records, hread, hall⟩, -⟩
    rw [read, readRows_csv hsize] at hread
    obtain rfl := Except.ok.inj hread
    exact hall
  · intro hall
    refine ⟨⟨_, ?_, hall⟩, ⟨header, _, readRows_csv hsize _ _, ?_⟩⟩
    · rw [read, readRows_csv hsize]
      rfl
    · show List.Forall₂ _ ((lines.take (min limit maxPreviewRows).toNat).map _) ((lines.map (lineFields header)).take _)
      rw [← List.map_take, List.forall₂_map_left_iff, List.forall₂_map_right_iff]
      exact List.forall₂_same.mpr fun cells _ => shows_line header cells

theorem complete_json_iff (items : List Item) :
    Complete ⟨size, .json (some items)⟩ limit ↔ (items.length : ℤ) ≤ maxPreviewRows ∧
      (∀ item ∈ items, ∃ fields, item = .obj fields) ∧ (0 ≤ limit ∨ (items.length : ℤ) ≤ -limit) := by
  have hcap : maxPreviewRows = 10000 := rfl
  constructor
  · rintro ⟨⟨records, hread, hall⟩, columns, rows, hpreview, hfirst⟩
    rw [read, readRows_json hsize] at hread
    obtain rfl := Except.ok.inj hread
    have hlength := hall.length_eq
    rw [List.length_map] at hlength
    obtain ⟨hshown, hobjects⟩ := objects_of_length (hlength.trans (List.length_map _))
    refine ⟨?_, hobjects, ?_⟩
    · have htake := congrArg List.length hshown
      rw [upTo, List.length_take, if_pos (by decide)] at htake
      omega
    · by_contra hcut
      rw [not_or, not_le, not_le] at hcut
      rw [preview, readRows_json hsize, min_eq_left (by omega)] at hpreview
      obtain ⟨-, rfl⟩ := Prod.mk.inj (Except.ok.inj hpreview)
      -- the preview shows the items but the last ones, although no row is asked for
      have hrows := (rows_shown (upTo limit items) fun i hi => hobjects i (List.mem_of_mem_take hi)).2.length_eq
      have hnone := hfirst.length_eq
      rw [min_eq_left (by omega), Int.toNat_of_nonpos (by omega), List.take_zero, List.length_nil] at hnone
      rw [hnone, List.length_map, upTo, List.length_take, if_neg (by omega)] at hrows
      omega
  · rintro ⟨hfew, hobjects, hlimit⟩
    have hall : upTo maxPreviewRows items = items := List.take_of_length_le (by
      rw [if_pos (by decide)]
      omega)
    refine ⟨⟨_, ?_, (rows_shown items hobjects).1⟩, ⟨_, _, readRows_json hsize _ _, ?_⟩⟩
    · rw [read, readRows_json hsize, jsonRows, hall]
      rfl
    · show List.Forall₂ (Shows ((upTo (min limit maxPreviewRows) items).foldl addColumns [])) _ ((items.map itemFields).take _)
      have hfirst : (items.map itemFields).take (min limit maxPreviewRows).toNat =
          (upTo (min limit maxPreviewRows) items).map itemFields := by
        rw [← List.map_take, upTo]
        by_cases hpos : 0 ≤ limit
        · rw [if_pos (by omega)]
        · rw [if_neg (by omega)]
          congr 2
          omega
      rw [hfirst]
      exact (rows_shown _ fun i hi => hobjects i (List.mem_of_mem_take hi)).2

end Result

/-- **When reading is complete and the preview is its prefix**: the file fits. -/
theorem file_complete_iff {a : Artifact} (hsize : a.size ≤ maxPreviewBytes) (limit : ℤ) :
    Complete a limit ↔ a.content.Fits limit := by
  obtain ⟨size, content⟩ := a
  rcases content with (_ | ⟨header, lines⟩) | (_ | items)
  · refine ⟨fun _ => trivial, fun _ => ⟨⟨[], ?_, .nil⟩, [], [], readRows_csv hsize _ _, ?_⟩⟩
    · rw [read, readRows_csv hsize]
      rfl
    · rw [Content.records, List.take_nil]
      exact .nil
  · exact complete_csv_iff hsize limit header lines
  · refine ⟨fun h => ?_, False.elim⟩
    obtain ⟨records, hread, -⟩ := h.read
    rw [read, readRows_none hsize] at hread
    cases hread
  · exact complete_json_iff hsize limit items

/-- A file with two columns of one name. -/
def twice (second : String) : Artifact := { size := 8, content := .csv [["a", "a"], ["x", second]] }

/-- The columns agree. -/
theorem twice_complete : Complete (twice "x") 1 := by
  refine (file_complete_iff (by decide) 1).mpr ⟨by decide, fun cells hline => ?_⟩
  obtain rfl := List.mem_singleton.mp hline
  refine ⟨by decide, fun i j hij hi hj _ => ?_⟩
  obtain ⟨rfl, rfl⟩ : i = 0 ∧ j = 1 := by
    simp at hi hj
    omega
  rfl

/-- The first of two values is dropped. -/
theorem twice_incomplete : ¬ Complete (twice "y") 1 := by
  rintro ⟨⟨records, hread, hall⟩, -⟩
  obtain rfl := Except.ok.inj hread
  obtain ⟨hfirst, -⟩ := List.forall₂_cons.mp hall
  obtain ⟨col, hcol, hget⟩ := hfirst (some "a", .str "x") List.mem_cons_self
  obtain rfl := Option.some.inj hcol
  exact absurd hget (by decide)

end Irip.Connectors
