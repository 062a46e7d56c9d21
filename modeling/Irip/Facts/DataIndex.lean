import Irip.Base.Eval
import Irip.Base.JsonText
import Irip.Common.PyText

/-!
# `Facts.DataIndex` — the index of the data points of facts, and what a search of it finds

A point becomes one row: its name as the key, the text of its value, and its number if the value is one. A search compares these
columns.
-/

namespace Irip.Facts.DataIndex

/-! ## Texts -/

/-- `repr(·)` of the float with the given text in JSON. -/
def floatText (r : String) : String :=
  if r = "NaN" then "nan" else if r = "Infinity" then "inf" else if r = "-Infinity" then "-inf" else r

/-- The text of an integer that does not have too many digits. -/
def intText? (i : Int) : Option String :=
  if maxIntDigits < (toString i.natAbs).length then none else some (toString i)

mutual

/-- `repr(·)` of a value, where no integer has too many digits. `quote` is the `repr` of a text. -/
def repr? (quote : String → String) : Json → Option String
  | .null => some "None"
  | .bool b => some (if b then "True" else "False")
  | .int i => intText? i
  | .float r => some (floatText r)
  | .str s => some (quote s)
  | .arr xs => (reprItems? quote xs).map (fun texts => "[" ++ ", ".intercalate texts ++ "]")
  | .obj fs => (reprFields? quote fs).map (fun texts => "\x7b" ++ ", ".intercalate texts ++ "\x7d")
  | .other v => repr? quote v

/-- `repr?` of every item of a list. -/
def reprItems? (quote : String → String) : List Json → Option (List String)
  | [] => some []
  | x :: xs => (repr? quote x).bind (fun text => (reprItems? quote xs).map (text :: ·))

/-- `repr?` of every member of a dictionary. -/
def reprFields? (quote : String → String) : List (String × Json) → Option (List String)
  | [] => some []
  | (k, v) :: fs => (repr? quote v).bind (fun text => (reprFields? quote fs).map ((quote k ++ ": " ++ text) :: ·))

end

/-- `str(·)` of a value. -/
def str? (quote : String → String) : Json → Option String
  | .str s => some s
  | v => repr? quote v

/-- A text column takes any text without a null character. -/
def Storable (text : String) : Prop := '\x00' ∉ text.toList

instance instDecidablePredStorable : DecidablePred Storable := fun text =>
  inferInstanceAs (Decidable (¬ '\x00' ∈ text.toList))

/-! ## Writing -/

/-- A row of `fact_data_index`. -/
structure Row where
  factId : Uuid
  rowIndex : Nat
  key : String
  valueText : String
  valueNumber : Option FloatNum

/-- `float(value)`, for a value that is an `int`, a `bool` or a `float`. -/
def numberOf? : Json → Option (Option FloatNum)
  | .int i => (floatOfInt i).toOption.map some
  | .bool b => (floatOfInt (if b then 1 else 0)).toOption.map some
  | .float r => some (some (floatOfRepr r))
  | _ => some none

/-- `point.get("name", f"item_{row_idx}")`. -/
def keyOf (fields : List (String × Json)) (rowIdx : Nat) : Json :=
  (fields.lookup "name").getD (.str s!"item_{rowIdx}")

/-- The dictionary of a point and its value, if that is not null. -/
def indexed? : Json → Option (List (String × Json) × Json)
  | .obj fields => match Json.get fields "value" with
    | .null => none
    | value => some (fields, value)
  | _ => none

/-- The row of a point, if it has one; nothing if the loop raises. -/
def convert (quote : String → String) (factId : Uuid) (point : Json × Nat) : Option (Option Row) :=
  match indexed? point.1 with
  | none => some none
  | some (fields, value) => do
    let number ← numberOf? value
    let text ← str? quote value
    let key ← str? quote (keyOf fields point.2)
    return some { factId := factId, rowIndex := point.2, key := key, valueText := text, valueNumber := number }

/-- `index_rows`, if the loop raises nothing. -/
def indexRows (quote : String → String) (factId : Uuid) : List (Json × Nat) → Option (List Row)
  | [] => some []
  | point :: points => do
    let row ← convert quote factId point
    let rows ← indexRows quote factId points
    return row.toList ++ rows

/-- The rows that one call inserts: all of them, or none if anything is raised. -/
def inserted (quote : String → String) (factId : Uuid) (points : List Json) : List Row :=
  match indexRows quote factId points.zipIdx with
  | none => []
  | some rows => if ∀ row ∈ rows, Storable row.key ∧ Storable row.valueText then rows else []

/-- `FlowFactService.write_fact_data_index`: the table after the call. -/
def writeFactDataIndex (quote : String → String) (table : List Row) (factId : Uuid) (points : List Json) : List Row :=
  table ++ inserted quote factId points

/-- The table after a list of calls. -/
def run (quote : String → String) (writes : List (Uuid × List Json)) : List Row :=
  writes.foldl (fun table w => writeFactDataIndex quote table w.1 w.2) []

/-! ## Searching -/

/-- The conditions of a search. -/
structure Query where
  q : Option String := none
  key : Option String := none
  value : Option String := none
  minValue : Option FloatNum := none
  maxValue : Option FloatNum := none

/-- `a <= b` of the database, where NaN is above every other number. -/
def sqlLe : FloatNum → FloatNum → Bool
  | _, .nan => true
  | .nan, .val _ => false
  | .val x, .val y => decide (x ≤ y)

/-- A condition that is not given holds. -/
def given {α : Type} (condition : Option α) (holds : α → Bool) : Bool :=
  match condition with
  | none => true
  | some a => holds a

/-- The conditions of a search on a row. `like` says whether a text matches `%q%` in any case. -/
def Query.matches (like : String → String → Bool) (query : Query) (row : Row) : Bool :=
  given query.q (fun q => like row.key q || like row.valueText q) &&
  given query.key (fun key => row.key == key) &&
  given query.value (fun value => row.valueText == value) &&
  given query.minValue (fun low => row.valueNumber.any (fun x => sqlLe low x)) &&
  given query.maxValue (fun high => row.valueNumber.any (fun x => sqlLe x high))

def Query.isEmpty (query : Query) : Bool :=
  query.q.isNone && query.key.isNone && query.value.isNone && query.minValue.isNone && query.maxValue.isNone

/-- `FactRepository.search_data_index`; which facts are left out beyond the page is open, and here they are the last ones. -/
def searchDataIndex (like : String → String → Bool) (table : List Row) (query : Query) (pageSize : Nat) : Option (List Uuid) :=
  if query.isEmpty then none
  else some (((table.filter (query.matches like)).map Row.factId).dedup.take pageSize)

variable (quote : String → String)

/-! ## Rows -/

/-- The row that a point becomes. -/
def rowOf? (factId : Uuid) (point : Json × Nat) : Option Row := (convert quote factId point).join

/-- The point can be converted, and what it becomes can be stored. -/
def Convertible (point : Json × Nat) : Prop :=
  ∀ fields value, indexed? point.1 = some (fields, value) →
    ∃ number text key, numberOf? value = some number ∧ str? quote value = some text ∧
      str? quote (keyOf fields point.2) = some key ∧ Storable key ∧ Storable text

variable {quote}

variable {point : Json × Nat} {factId : Uuid} {points : List (Json × Nat)} {writes : List (Uuid × List Json)}
  {like : String → String → Bool}

theorem convert_of_indexed {fields : List (String × Json)} {value : Json}
    (h : indexed? point.1 = some (fields, value)) : convert quote factId point =
      (numberOf? value).bind fun number => (str? quote value).bind fun text => (str? quote (keyOf fields point.2)).bind fun key =>
        some (some { factId := factId, rowIndex := point.2, key := key, valueText := text, valueNumber := number }) := by
  unfold convert
  rw [h]
  rfl

theorem convert_of_not_indexed (h : indexed? point.1 = none) : convert quote factId point = some none := by
  unfold convert
  rw [h]

theorem convert_eq_some {row : Row} (h : convert quote factId point = some (some row)) :
    ∃ fields value, indexed? point.1 = some (fields, value) ∧ row.factId = factId ∧ row.rowIndex = point.2 ∧
      numberOf? value = some row.valueNumber ∧ str? quote value = some row.valueText ∧
      str? quote (keyOf fields point.2) = some row.key := by
  cases hindexed : indexed? point.1 with
  | none =>
    rw [convert_of_not_indexed hindexed] at h
    cases h
  | some fv =>
    obtain ⟨fields, value⟩ := fv
    rw [convert_of_indexed hindexed] at h
    obtain ⟨number, hnumber, h⟩ := Option.bind_eq_some_iff.mp h
    obtain ⟨text, htext, h⟩ := Option.bind_eq_some_iff.mp h
    obtain ⟨key, hkey, h⟩ := Option.bind_eq_some_iff.mp h
    obtain rfl := Option.some.inj (Option.some.inj h)
    exact ⟨fields, value, rfl, rfl, rfl, hnumber, htext, hkey⟩

theorem convert_eq_none_row (h : convert quote factId point = some none) : indexed? point.1 = none := by
  cases hindexed : indexed? point.1 with
  | none => rfl
  | some fv =>
    obtain ⟨fields, value⟩ := fv
    rw [convert_of_indexed hindexed] at h
    obtain ⟨_, _, h⟩ := Option.bind_eq_some_iff.mp h
    obtain ⟨_, _, h⟩ := Option.bind_eq_some_iff.mp h
    obtain ⟨_, _, h⟩ := Option.bind_eq_some_iff.mp h
    cases h

theorem convert_of_convertible {factId : Uuid} {point : Json × Nat} (h : Convertible quote point) :
    ∃ row, convert quote factId point = some row := by
  cases hindexed : indexed? point.1 with
  | none => exact ⟨none, convert_of_not_indexed hindexed⟩
  | some fv =>
    obtain ⟨fields, value⟩ := fv
    obtain ⟨_, _, _, hnumber, htext, hkey, _⟩ := h fields value hindexed
    rw [convert_of_indexed hindexed, hnumber, htext, hkey]
    exact ⟨_, rfl⟩

theorem indexRows_of_convertible (h : ∀ p ∈ points, Convertible quote p) :
    indexRows quote factId points = some (points.filterMap (rowOf? quote factId)) := by
  induction points with
  | nil => rfl
  | cons p points ih =>
    obtain ⟨row, hrow⟩ := @convert_of_convertible _ factId _ (h p List.mem_cons_self)
    have hrest := ih (fun q hq => h q (List.mem_cons_of_mem _ hq))
    unfold indexRows
    rw [hrow, hrest, List.filterMap_cons, rowOf?, hrow]
    cases row with
    | none => rfl
    | some r => rfl

theorem convert_of_indexRows {rows : List Row} (h : indexRows quote factId points = some rows) :
    ∀ p ∈ points, ∃ row, convert quote factId p = some row ∧ ∀ r, row = some r → r ∈ rows := by
  induction points generalizing rows with
  | nil => intro p hp; exact absurd hp List.not_mem_nil
  | cons p points ih =>
    unfold indexRows at h
    obtain ⟨row, hrow, h⟩ := Option.bind_eq_some_iff.mp h
    obtain ⟨rest, hrest, h⟩ := Option.bind_eq_some_iff.mp h
    obtain rfl := Option.some.inj h
    intro q hq
    rcases List.mem_cons.mp hq with rfl | hq
    · refine ⟨row, hrow, fun r hr => List.mem_append_left _ ?_⟩
      rw [hr]
      exact List.mem_singleton.mpr rfl
    · obtain ⟨row', hrow', hmem⟩ := ih hrest q hq
      exact ⟨row', hrow', fun r hr => List.mem_append_right _ (hmem r hr)⟩

/-- **All or nothing**: one row for each point that is not left out, or none if one of them cannot be converted. -/
theorem inserted_eq (factId : Uuid) (points : List Json) :
    ((∀ p ∈ points.zipIdx, Convertible quote p) ∧
      inserted quote factId points = points.zipIdx.filterMap (rowOf? quote factId)) ∨
    ((¬ ∀ p ∈ points.zipIdx, Convertible quote p) ∧ inserted quote factId points = []) := by
  by_cases hall : ∀ p ∈ points.zipIdx, Convertible quote p
  · refine .inl ⟨hall, ?_⟩
    unfold inserted
    rw [indexRows_of_convertible hall]
    dsimp only
    rw [if_pos]
    intro row hrow
    obtain ⟨p, hp, hrow⟩ := List.mem_filterMap.mp hrow
    obtain ⟨fields, value, hindexed, _, _, _, htext, hkey⟩ := convert_eq_some (Option.join_eq_some_iff.mp hrow)
    obtain ⟨_, _, _, _, htext', hkey', hstoreKey, hstoreText⟩ := hall p hp fields value hindexed
    rw [htext] at htext'
    rw [hkey] at hkey'
    cases htext'
    cases hkey'
    exact ⟨hstoreKey, hstoreText⟩
  · refine .inr ⟨hall, ?_⟩
    unfold inserted
    cases hrows : indexRows quote factId points.zipIdx with
    | none => rfl
    | some rows =>
      dsimp only
      rw [if_neg]
      intro hstore
      refine hall (fun p hp fields value hindexed => ?_)
      obtain ⟨row, hrow, hmem⟩ := convert_of_indexRows hrows p hp
      cases row with
      | none =>
        rw [convert_eq_none_row hrow] at hindexed
        cases hindexed
      | some r =>
        obtain ⟨_, _, hindexed', _, _, hnumber, htext, hkey⟩ := convert_eq_some hrow
        rw [hindexed] at hindexed'
        cases hindexed'
        exact ⟨_, _, _, hnumber, htext, hkey, hstore r (hmem r rfl)⟩

/-- The positions of the points that have a value. -/
def positions (points : List Json) : List Nat := (points.zipIdx.filter (fun p => (indexed? p.1).isSome)).map Prod.snd

theorem rowOf?_of_indexed {factId : Uuid} {point : Json × Nat} (h : Convertible quote point)
    (hindexed : (indexed? point.1).isSome = true) :
    ∃ row, rowOf? quote factId point = some row ∧ row.factId = factId ∧ row.rowIndex = point.2 := by
  obtain ⟨row, hrow⟩ := @convert_of_convertible _ factId _ h
  cases row with
  | none =>
    rw [convert_eq_none_row hrow] at hindexed
    cases hindexed
  | some r =>
    obtain ⟨_, _, _, hfact, hindex, _⟩ := convert_eq_some hrow
    exact ⟨r, by rw [rowOf?, hrow]; rfl, hfact, hindex⟩

theorem map_rowOf? (h : ∀ p ∈ points, Convertible quote p) :
    (points.filterMap (rowOf? quote factId)).map (fun r => (r.factId, r.rowIndex)) =
      ((points.filter (fun p => (indexed? p.1).isSome)).map Prod.snd).map (fun i => (factId, i)) := by
  induction points with
  | nil => rfl
  | cons p points ih =>
    have hrest := ih (fun q hq => h q (List.mem_cons_of_mem _ hq))
    rw [List.filterMap_cons, List.filter_cons]
    cases hindexed : (indexed? p.1).isSome with
    | false =>
      have hnone : rowOf? quote factId p = none := by
        rw [rowOf?, convert_of_not_indexed (by simpa using hindexed)]
        rfl
      rw [hnone]
      exact hrest
    | true =>
      obtain ⟨row, hrow, hfact, hindex⟩ := @rowOf?_of_indexed _ factId _ (h p List.mem_cons_self) hindexed
      rw [hrow]
      show (row.factId, row.rowIndex) :: _ = (factId, p.2) :: _
      rw [hfact, hindex, hrest]

theorem positions_ne_nil {points : List Json} (h : ¬ ∀ p ∈ points.zipIdx, Convertible quote p) : positions points ≠ [] := by
  intro hnil
  refine h (fun p hp fields value hindexed => ?_)
  have hmem : p.2 ∈ positions points :=
    List.mem_map.mpr ⟨p, List.mem_filter.mpr ⟨hp, by rw [hindexed]; rfl⟩, rfl⟩
  rw [hnil] at hmem
  exact absurd hmem List.not_mem_nil

/-! ## Runs -/

theorem foldl_write (writes : List (Uuid × List Json)) (table : List Row) :
    writes.foldl (fun table w => writeFactDataIndex quote table w.1 w.2) table =
      table ++ writes.flatMap (fun w => inserted quote w.1 w.2) := by
  induction writes generalizing table with
  | nil => simp
  | cons w writes ih =>
    rw [List.foldl_cons, ih, writeFactDataIndex, List.flatMap_cons, List.append_assoc]

theorem run_eq (writes : List (Uuid × List Json)) : run quote writes = writes.flatMap (fun w => inserted quote w.1 w.2) := by
  unfold run
  rw [foldl_write, List.nil_append]

theorem run_snoc (writes : List (Uuid × List Json)) (w : Uuid × List Json) :
    run quote (writes ++ [w]) = run quote writes ++ inserted quote w.1 w.2 := by
  rw [run_eq, run_eq, List.flatMap_append, List.flatMap_singleton]

theorem mem_run (h : ∀ w ∈ writes, ∀ p ∈ w.2.zipIdx, Convertible quote p) {row : Row} :
    row ∈ run quote writes ↔ ∃ w ∈ writes, ∃ p ∈ w.2.zipIdx, convert quote w.1 p = some (some row) := by
  rw [run_eq, List.mem_flatMap]
  refine exists_congr (fun w => and_congr_right (fun hw => ?_))
  rcases @inserted_eq quote w.1 w.2 with ⟨_, hrows⟩ | ⟨hnot, _⟩
  · rw [hrows, List.mem_filterMap]
    simp only [rowOf?, Option.join_eq_some_iff]
  · exact absurd (h w hw) hnot

/-! ## Queries -/

/-- The number of a value, if it is one: NaN is none. -/
def exactNumber : Json → Option (WithBot (WithTop ℚ))
  | .int i => some (((i : ℚ) : WithTop ℚ) : WithBot (WithTop ℚ))
  | .bool b => some (((if b then 1 else 0 : ℚ) : WithTop ℚ) : WithBot (WithTop ℚ))
  | .float r => match floatOfRepr r with
    | .val x => some x
    | .nan => none
  | _ => none

/-- A point has a value and meets every condition: its name is the key, its text the value, and its number in the range. -/
def Satisfies (quote : String → String) (query : Query) (point : Json × Nat) : Prop :=
  ∃ fields value, indexed? point.1 = some (fields, value) ∧
    (∀ key, query.key = some key → str? quote (keyOf fields point.2) = some key) ∧
    (∀ text, query.value = some text → str? quote value = some text) ∧
    (∀ low, query.minValue = some (.val low) → ∃ x, exactNumber value = some x ∧ low ≤ x) ∧
    (∀ high, query.maxValue = some (.val high) → ∃ x, exactNumber value = some x ∧ x ≤ high)

/-- A search by key, exact value and range of numbers. -/
structure Asked (query : Query) : Prop where
  noText : query.q = none
  nonempty : query.isEmpty = false
  low : query.minValue ≠ some .nan
  high : query.maxValue ≠ some .nan

/-- The number of the value is the float it is stored as. -/
def Exact : Json → Prop
  | .int i => binary64.ofRat i = .fin i
  | .float r => floatOfRepr r ≠ .nan
  | _ => True

theorem given_iff {α : Type} {condition : Option α} {holds : α → Bool} :
    given condition holds = true ↔ ∀ a, condition = some a → holds a = true := by
  cases condition with
  | none | some a => simp [given]

theorem valueNumber_eq {value : Json} (h : Exact value) {number : Option FloatNum} (hnumber : numberOf? value = some number) :
    number = (exactNumber value).map FloatNum.val := by
  cases value with
  | int i =>
    have hexact : binary64.ofRat i = .fin i := h
    have hfloat : floatOfInt i = .ok (.fin i) := by
      unfold floatOfInt
      rw [hexact, if_pos (FloatNum.isFinite_iff.mpr ⟨_, rfl⟩)]
    rw [numberOf?, hfloat] at hnumber
    exact (Option.some.inj hnumber).symm
  | bool b =>
    cases b with
    | true =>
      have hfloat : floatOfInt (if true then 1 else 0) = .ok (.fin 1) := by decide +kernel
      rw [numberOf?, hfloat] at hnumber
      exact (Option.some.inj hnumber).symm
    | false =>
      have hfloat : floatOfInt (if false then 1 else 0) = .ok (.fin 0) := by decide +kernel
      rw [numberOf?, hfloat] at hnumber
      exact (Option.some.inj hnumber).symm
  | float r =>
    have hexact : floatOfRepr r ≠ .nan := h
    have hrow := Option.some.inj hnumber
    rw [← hrow, exactNumber]
    cases hr : floatOfRepr r with
    | nan => exact absurd hr hexact
    | val x => rfl
  | _ => exact (Option.some.inj hnumber).symm

theorem matches_iff {query : Query} (hq : Asked query)
    {row : Row} (hrow : convert quote factId point = some (some row))
    (hexact : ∀ fields value, indexed? point.1 = some (fields, value) → Exact value) :
    query.matches like row = true ↔ Satisfies quote query point := by
  obtain ⟨fields, value, hindexed, _, _, hnumber, htext, hkey⟩ := convert_eq_some hrow
  have hvalue := valueNumber_eq (hexact fields value hindexed) hnumber
  have hlow : (∀ low, query.minValue = some low → row.valueNumber.any (fun x => sqlLe low x) = true) ↔
      ∀ low, query.minValue = some (.val low) → ∃ x, exactNumber value = some x ∧ low ≤ x := by
    rw [hvalue]
    constructor
    · intro h low hmin
      have := h _ hmin
      cases hx : exactNumber value with
      | none => rw [hx] at this; cases this
      | some x => rw [hx] at this; exact ⟨x, rfl, of_decide_eq_true this⟩
    · intro h low hmin
      cases low with
      | nan => exact absurd hmin hq.low
      | val low =>
        obtain ⟨x, hx, hle⟩ := h low hmin
        rw [hx]
        exact decide_eq_true hle
  have hhigh : (∀ high, query.maxValue = some high → row.valueNumber.any (fun x => sqlLe x high) = true) ↔
      ∀ high, query.maxValue = some (.val high) → ∃ x, exactNumber value = some x ∧ x ≤ high := by
    rw [hvalue]
    constructor
    · intro h high hmax
      have := h _ hmax
      cases hx : exactNumber value with
      | none => rw [hx] at this; cases this
      | some x => rw [hx] at this; exact ⟨x, rfl, of_decide_eq_true this⟩
    · intro h high hmax
      cases high with
      | nan => exact absurd hmax hq.high
      | val high =>
        obtain ⟨x, hx, hle⟩ := h high hmax
        rw [hx]
        exact decide_eq_true hle
  unfold Query.matches
  rw [hq.noText]
  simp only [given_iff, Bool.and_eq_true, beq_iff_eq, reduceCtorEq, false_implies, implies_true, true_and]
  rw [hlow, hhigh]
  constructor
  · rintro ⟨⟨⟨hk, hv⟩, hmin⟩, hmax⟩
    exact ⟨fields, value, hindexed, fun key h => by rw [hkey, hk key h], fun text h => by rw [htext, hv text h], hmin, hmax⟩
  · rintro ⟨fields', value', hindexed', hk, hv, hmin, hmax⟩
    rw [hindexed] at hindexed'
    cases hindexed'
    refine ⟨⟨⟨fun key h => ?_, fun text h => ?_⟩, hmin⟩, hmax⟩
    · exact Option.some.inj (hkey.symm.trans (hk key h))
    · exact Option.some.inj (htext.symm.trans (hv text h))

theorem mem_search {like : String → String → Bool} {writes : List (Uuid × List Json)}
    (h : ∀ w ∈ writes, ∀ p ∈ w.2.zipIdx, Convertible quote p) {query : Query} (hquery : query.isEmpty = false) {pageSize : Nat}
    (hsize : writes.length ≤ pageSize) :
    ∃ ids, searchDataIndex like (run quote writes) query pageSize = some ids ∧ ids.Nodup ∧
      ∀ f, f ∈ ids ↔ ∃ w ∈ writes, w.1 = f ∧
        ∃ p ∈ w.2.zipIdx, ∃ row, convert quote w.1 p = some (some row) ∧ query.matches like row = true := by
  have hfound : ∀ f, f ∈ ((run quote writes).filter (query.matches like)).map Row.factId ↔ ∃ w ∈ writes, w.1 = f ∧
      ∃ p ∈ w.2.zipIdx, ∃ row, convert quote w.1 p = some (some row) ∧ query.matches like row = true := by
    intro f
    simp only [List.mem_map, List.mem_filter, mem_run h]
    constructor
    · rintro ⟨row, ⟨⟨w, hw, p, hp, hrow⟩, hmatch⟩, rfl⟩
      obtain ⟨_, _, _, hfact, _⟩ := convert_eq_some hrow
      exact ⟨w, hw, hfact.symm, p, hp, row, hrow, hmatch⟩
    · rintro ⟨w, hw, rfl, p, hp, row, hrow, hmatch⟩
      obtain ⟨_, _, _, hfact, _⟩ := convert_eq_some hrow
      exact ⟨row, ⟨⟨w, hw, p, hp, hrow⟩, hmatch⟩, hfact⟩
  have hlength : (((run quote writes).filter (query.matches like)).map Row.factId).dedup.length ≤ pageSize := by
    have hsub : (((run quote writes).filter (query.matches like)).map Row.factId).dedup ⊆ writes.map Prod.fst := by
      intro f hf
      obtain ⟨w, hw, rfl, _⟩ := (hfound f).mp (List.mem_dedup.mp hf)
      exact List.mem_map_of_mem hw
    have hle := ((List.nodup_dedup _).subperm hsub).length_le
    rw [List.length_map] at hle
    omega
  unfold searchDataIndex
  rw [if_neg (by simp [hquery]), List.take_of_length_le hlength]
  exact ⟨_, rfl, List.nodup_dedup _, fun f => by rw [List.mem_dedup, hfound]⟩

/-! ## Result -/

/-- A list of points as JSON has them. -/
abbrev Points := {points : List Json // ∀ p ∈ points, p.Decoded}

/-- The calls, with their points. -/
def callsOf (writes : List (Uuid × Points)) : List (Uuid × List Json) := writes.map (fun w => (w.1, w.2.val))

/-- Every call adds one row for each dictionary with a value, at its position, and nothing else. -/
def RowsExact (quote : String → String) (writes : List (Uuid × List Json)) : Prop :=
  ∀ before w after, writes = before ++ w :: after → ∃ rows, run quote (before ++ [w]) = run quote before ++ rows ∧
    rows.map (fun r => (r.factId, r.rowIndex)) = (positions w.2).map (fun i => (w.1, i))

/-- Every search finds exactly the facts that have a point which meets all its conditions. -/
def SearchExact (quote : String → String) (like : String → String → Bool) (writes : List (Uuid × List Json)) : Prop :=
  ∀ query, Asked query → ∀ pageSize, writes.length ≤ pageSize →
    ∃ ids, searchDataIndex like (run quote writes) query pageSize = some ids ∧ ids.Nodup ∧
      ∀ f, f ∈ ids ↔ ∃ w ∈ writes, w.1 = f ∧ ∃ p ∈ w.2.zipIdx, Satisfies quote query p

/-- A point can be converted, and its number is not changed by it. -/
def Indexable (quote : String → String) (point : Json × Nat) : Prop :=
  Convertible quote point ∧ ∀ fields value, indexed? point.1 = some (fields, value) → Exact value

theorem rowsExact_iff : RowsExact quote writes ↔ ∀ w ∈ writes, ∀ p ∈ w.2.zipIdx, Convertible quote p := by
  constructor
  · intro h w hw
    obtain ⟨before, after, hsplit⟩ := List.append_of_mem hw
    obtain ⟨rows, hrun, hrows⟩ := h before w after hsplit
    rw [run_snoc, List.append_cancel_left_eq] at hrun
    by_contra hnot
    rcases @inserted_eq quote w.1 w.2 with ⟨hall, _⟩ | ⟨_, hnil⟩
    · exact hnot hall
    · rw [← hrun, hnil] at hrows
      exact positions_ne_nil hnot (List.map_eq_nil_iff.mp hrows.symm)
  · intro h before w after hsplit
    have hw : w ∈ writes := by
      rw [hsplit]
      exact List.mem_append_right _ List.mem_cons_self
    refine ⟨inserted quote w.1 w.2, run_snoc before w, ?_⟩
    rcases @inserted_eq quote w.1 w.2 with ⟨hall, hrows⟩ | ⟨hnot, _⟩
    · rw [hrows]
      exact map_rowOf? hall
    · exact absurd (h w hw) hnot

theorem searchExact_of_indexable
    (h : ∀ w ∈ writes, ∀ p ∈ w.2.zipIdx, Indexable quote p) : SearchExact quote like writes := by
  intro query hquery pageSize hsize
  obtain ⟨ids, hids, hnodup, hmem⟩ := @mem_search _ like writes (fun w hw p hp => (h w hw p hp).1) query hquery.nonempty _ hsize
  refine ⟨ids, hids, hnodup, fun f => (hmem f).trans ?_⟩
  constructor
  · rintro ⟨w, hw, hf, p, hp, row, hrow, hmatch⟩
    exact ⟨w, hw, hf, p, hp, (matches_iff hquery hrow (h w hw p hp).2).mp hmatch⟩
  · rintro ⟨w, hw, hf, p, hp, hsat⟩
    obtain ⟨row, hrow⟩ := @convert_of_convertible _ w.1 _ (h w hw p hp).1
    cases row with
    | none =>
      obtain ⟨_, _, hindexed, _⟩ := hsat
      rw [convert_eq_none_row hrow] at hindexed
      cases hindexed
    | some row => exact ⟨w, hw, hf, p, hp, row, hrow, (matches_iff hquery hrow (h w hw p hp).2).mpr hsat⟩

theorem floatOfRepr_floatText (r : String) : floatOfRepr (floatText r) = floatOfRepr r := by
  unfold floatText
  split
  · next h => rw [h]; decide +kernel
  · split
    · next h => rw [h]; decide +kernel
    · split
      · next h => rw [h]; decide +kernel
      · rfl

theorem floatText_ne {r : String} (h : (Json.float r).Decoded) (i : Int) : floatText r ≠ toString i := by
  intro heq
  have hall : ∀ c ∈ (floatText r).toList, Json.intChar c = true := by
    intro c hc
    rw [heq] at hc
    exact Json.intChar_of_mem hc
  cases h with
  | float _ _ hpoint _ =>
    obtain ⟨c, hc, hint⟩ := hpoint
    unfold floatText at hall
    split at hall
    · exact absurd (hall 'n' (by decide)) (by decide)
    · split at hall
      · exact absurd (hall 'n' (by decide)) (by decide)
      · split at hall
        · exact absurd (hall 'n' (by decide)) (by decide)
        · rw [hall c hc] at hint
          cases hint

theorem boolText_ne (b : Bool) (i : Int) : (if b then "True" else "False") ≠ toString i := by
  intro heq
  have hall : ∀ c ∈ (if b then "True" else "False").toList, Json.intChar c = true := by
    intro c hc
    rw [heq] at hc
    exact Json.intChar_of_mem hc
  cases b with
  | true => exact absurd (hall 'T' (by decide)) (by decide)
  | false => exact absurd (hall 'F' (by decide)) (by decide)

theorem indexed?_decoded {point : Json} (h : point.Decoded) {fields : List (String × Json)} {value : Json}
    (hindexed : indexed? point = some (fields, value)) : value.Decoded := by
  cases point with
  | obj fs =>
    cases h with
    | obj _ hmembers =>
      have hvalue := Json.decoded_get hmembers "value"
      unfold indexed? at hindexed
      dsimp only at hindexed
      split at hindexed
      · cases hindexed
      · cases hindexed
        exact hvalue
  | _ => cases hindexed

/-- The points that a search for a text and a range finds have values with that text. -/
structure Found (quote : String → String) (query : Query) (value : Json) : Prop where
  decoded : value.Decoded
  text : ∀ text, query.value = some text → str? quote value = some text
  low : ∀ low, query.minValue = some (.val low) → ∃ x, exactNumber value = some x ∧ low ≤ x
  high : ∀ high, query.maxValue = some (.val high) → ∃ x, exactNumber value = some x ∧ x ≤ high

theorem found_of_matches {writes : List (Uuid × Points)}
    (hconv : ∀ w ∈ callsOf writes, ∀ p ∈ w.2.zipIdx, Convertible quote p) (h : SearchExact quote like (callsOf writes))
    {query : Query} (hquery : Asked query) {w : Uuid × List Json} (hw : w ∈ callsOf writes) {p : Json × Nat}
    (hp : p ∈ w.2.zipIdx) {row : Row} (hrow : convert quote w.1 p = some (some row)) (hmatch : query.matches like row = true) :
    ∃ value, Found quote query value := by
  obtain ⟨ids, hids, _, hmem⟩ := h query hquery (callsOf writes).length (le_refl _)
  obtain ⟨ids', hids', _, hmem'⟩ := @mem_search _ like _ hconv query hquery.nonempty (callsOf writes).length (le_refl _)
  rw [hids] at hids'
  cases hids'
  obtain ⟨w', hw', _, p', hp', fields, value, hindexed, _, htext, hlow, hhigh⟩ :=
    (hmem w.1).mp ((hmem' w.1).mpr ⟨w, hw, rfl, p, hp, row, hrow, hmatch⟩)
  obtain ⟨v, _, rfl⟩ := List.mem_map.mp hw'
  have hmem : p'.1 ∈ v.2.val := List.fst_mem_of_mem_zipIdx hp'
  exact ⟨value, indexed?_decoded (v.2.property _ hmem) hindexed, htext, hlow, hhigh⟩

/-- A number that is no float, or a NaN, is found by a search that it does not meet: the search for its text, and for the float
that it is stored as, or for what is as large as infinity. -/
theorem exact_of_searchExact {writes : List (Uuid × Points)}
    (hconv : ∀ w ∈ callsOf writes, ∀ p ∈ w.2.zipIdx, Convertible quote p) (h : SearchExact quote like (callsOf writes)) :
    ∀ w ∈ callsOf writes, ∀ p ∈ w.2.zipIdx, ∀ fields value, indexed? p.1 = some (fields, value) → Exact value := by
  intro w hw p hp fields value hindexed
  obtain ⟨row, hrow⟩ := @convert_of_convertible _ w.1 _ (hconv w hw p hp)
  cases row with
  | none =>
    rw [convert_eq_none_row hrow] at hindexed
    cases hindexed
  | some row =>
    obtain ⟨_, _, hindexed', _, _, hnumber, htext, _⟩ := convert_eq_some hrow
    rw [hindexed] at hindexed'
    cases hindexed'
    cases value with
    | int i =>
      by_contra hne
      have hne : binary64.ofRat i ≠ .fin i := hne
      -- it is stored as another number
      have hfloat : ∃ x, floatOfInt i = .ok x ∧ row.valueNumber = some x := by
        rw [numberOf?] at hnumber
        cases hx : floatOfInt i with
        | error e => rw [hx] at hnumber; cases hnumber
        | ok x => rw [hx] at hnumber; exact ⟨x, rfl, (Option.some.inj hnumber).symm⟩
      obtain ⟨x, hx, hvalue⟩ := hfloat
      unfold floatOfInt at hx
      split at hx
      · next hfinite =>
          obtain ⟨q, hq⟩ := FloatNum.isFinite_iff.mp hfinite
          rw [hq] at hx hne
          obtain rfl := Except.ok.inj hx
          have htextInt : row.valueText = toString i := by
            change intText? i = some row.valueText at htext
            unfold intText? at htext
            split at htext
            · cases htext
            · exact (Option.some.inj htext).symm
          let query : Query := { value := some (toString i), minValue := some (.fin q), maxValue := some (.fin q) }
          have hquery : Asked query := ⟨rfl, rfl, by simp [query, FloatNum.fin], by simp [query, FloatNum.fin]⟩
          have hmatch : query.matches like row = true := by
            have hle : sqlLe (.fin q) (.fin q) = true := decide_eq_true (le_refl _)
            unfold Query.matches
            simp [query, given, htextInt, hvalue, hle]
          obtain ⟨found, hdecoded, hsame, hlow, hhigh⟩ := found_of_matches hconv h hquery hw hp hrow hmatch
          have hsame := hsame _ rfl
          obtain ⟨y, hy, hqy⟩ := hlow _ rfl
          obtain ⟨z, hz, hzq⟩ := hhigh _ rfl
          rw [hy] at hz
          cases hz
          have hyq := le_antisymm hzq hqy
          cases found with
          | int j =>
            change intText? j = some (toString i) at hsame
            unfold intText? at hsame
            split at hsame
            · cases hsame
            · have hij : j = i := Json.toString_inj (by rw [Option.some.inj hsame])
              subst hij
              cases hy
              apply hne
              rw [FloatNum.fin, FloatNum.fin, hyq]
          | bool b => exact boolText_ne b i (Option.some.inj hsame)
          | float r => exact floatText_ne hdecoded i (Option.some.inj hsame)
          | _ => cases hy
      · cases hx
    | float r =>
      intro hnan
      have hvalue : row.valueNumber = some .nan := by
        rw [numberOf?, hnan] at hnumber
        exact (Option.some.inj hnumber).symm
      have htextFloat : row.valueText = floatText r := (Option.some.inj htext).symm
      let query : Query := { value := some (floatText r), minValue := some .inf }
      have hquery : Asked query := ⟨rfl, rfl, by simp [query, FloatNum.inf], by simp [query]⟩
      have hmatch : query.matches like row = true := by
        unfold Query.matches
        simp [query, given, htextFloat, hvalue, sqlLe, FloatNum.inf]
      obtain ⟨found, _, hsame, hlow, _⟩ := found_of_matches hconv h hquery hw hp hrow hmatch
      have hsame := hsame _ rfl
      obtain ⟨y, hy, hle⟩ := hlow _ rfl
      have htop : ∀ q : ℚ, ¬ ((⊤ : WithTop ℚ) : WithBot (WithTop ℚ)) ≤ ((q : WithTop ℚ) : WithBot (WithTop ℚ)) := by
        intro q hq
        rw [WithBot.coe_le_coe, top_le_iff] at hq
        exact WithTop.coe_ne_top hq
      cases found with
      | int j | bool b =>
        cases hy
        exact htop _ hle
      | float r' =>
        have hvalue' : floatOfRepr r' = .nan := by
          rw [← floatOfRepr_floatText, Option.some.inj hsame, floatOfRepr_floatText, hnan]
        rw [exactNumber, hvalue'] at hy
        cases hy
      | _ => cases hy
    | _ => trivial

/-- **The index holds every point and answers every search exactly** if and only if every point can be converted and stored, and
its number is a float and not NaN. -/
theorem indexed_iff (quote : String → String) (like : String → String → Bool) (writes : List (Uuid × Points)) :
    (RowsExact quote (callsOf writes) ∧ SearchExact quote like (callsOf writes)) ↔
      ∀ w ∈ callsOf writes, ∀ p ∈ w.2.zipIdx, Indexable quote p := by
  constructor
  · rintro ⟨hrows, hsearch⟩ w hw p hp
    have hconv := rowsExact_iff.mp hrows
    exact ⟨hconv w hw p hp, exact_of_searchExact hconv hsearch w hw p hp⟩
  · intro h
    exact ⟨rowsExact_iff.mpr (fun w hw p hp => (h w hw p hp).1), searchExact_of_indexable h⟩

/-- A point with the value 1 and one with an integer that no float is near to. -/
def hugePoints : Points :=
  ⟨[.obj [("name", .str "a"), ("value", .int 1)], .obj [("name", .str "b"), ("value", .int (10 ^ 400))]], by
    intro p hp
    rcases List.mem_cons.mp hp with rfl | hp
    · exact .obj _ (by intro m hm; rcases List.mem_cons.mp hm with rfl | hm; exact .str _; cases List.mem_singleton.mp hm; exact .int _)
    · cases List.mem_singleton.mp hp
      exact .obj _ (by intro m hm; rcases List.mem_cons.mp hm with rfl | hm; exact .str _; cases List.mem_singleton.mp hm; exact .int _)⟩

/-- Neither of them is in the index. -/
theorem not_indexed_huge :
    ¬ (RowsExact (fun s => "'" ++ s ++ "'") (callsOf [("f", hugePoints)]) ∧
      SearchExact (fun s => "'" ++ s ++ "'") (fun text q => text == q) (callsOf [("f", hugePoints)])) := by
  rintro ⟨h, _⟩
  have hconv := rowsExact_iff.mp h _ List.mem_cons_self (.obj [("name", .str "b"), ("value", .int (10 ^ 400))], 1)
    (List.mem_cons_of_mem _ List.mem_cons_self)
  obtain ⟨_, _, _, hnumber, _⟩ := hconv _ _ rfl
  have hlarge : floatOfInt (10 ^ 400) = .error .overflowError := by decide +kernel
  change (floatOfInt (10 ^ 400)).toOption.map some = _ at hnumber
  rw [hlarge] at hnumber
  cases hnumber

end Irip.Facts.DataIndex
