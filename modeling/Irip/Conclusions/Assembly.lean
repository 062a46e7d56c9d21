import Mathlib.Data.List.Forall2
import Irip.Base.Dict
import Irip.Base.JsonText
import Irip.Common

/-!
# `Conclusions.Assembly` — a final conclusion out of the items of the conclusion bar

`_extract_structured` brings an item to metadata, points and series, by the type of its block. `_merge_structured` appends
the points and series of all items, and gives each metadata key the value of the first item that has it.
-/

namespace Irip.Conclusions.Assembly

/-! ## Items -/

/-- What the assembly reads of a row of `research_conclusion_bar_item`. -/
structure Item where
  id : String
  blockType : String
  title : String
  contentSnapshot : Dict String Json
  sourceInfo : Dict String Json := ∅

/-- The types of blocks that are told apart. -/
inductive BlockKind where
  | chart
  | structured
  | table
  | text
  | other

def Item.kind (i : Item) : BlockKind :=
  if i.blockType ∈ ["echarts", "chart_ref"] then .chart
  else if i.blockType = "structured" then .structured
  else if i.blockType = "table" then .table
  else if i.blockType = "text" then .text
  else .other

/-- The type name of a value, as an error names it. -/
def typeName : Json → String
  | .bool _ => "bool"
  | .int _ => "int"
  | .float _ => "float"
  | _ => "object"

/-- `list(value or [])`; the error is the text of a `TypeError`. -/
def pyList (value : Json) : Except String (List Json) :=
  if value.truthy then
    match value with
    | .arr items => .ok items
    | .str s => .ok (s.toList.map (fun c => .str (String.singleton c)))
    | .obj fields => .ok (fields.map (fun m => .str m.1))
    | v => .error s!"'{typeName v}' object is not iterable"
  else .ok []

/-- `isinstance(·, list)`. -/
def isList : Json → Bool
  | .arr _ => true
  | _ => false

/-! ## Extraction -/

/-- What is extracted of an item. -/
structure Extracted where
  metadata : Dict String Json := ∅
  points : List Json := []
  series : List Json := []

/-- An entry of `series`. -/
def seriesEntry (name : Json) (columns rows : List Json) : Json :=
  .obj [("name", name), ("columns", .arr columns), ("rows", .arr rows)]

/-- `[[i + 1, v] for i, v in enumerate(data)]`. -/
def enumerated (data : List Json) : List Json := data.zipIdx.map (fun x => .arr [.int (x.2 + 1), x.1])

/-- `s.get("name") or item.title`, as a text. -/
def chartName (title : String) (s : List (String × Json)) : String :=
  if (Json.get s "name").truthy then (Json.get s "name").pyStr else title

/-- The entry of one series of a chart. -/
def chartEntry (title : String) (s : List (String × Json)) : Json :=
  let name : Json := .str (chartName title s)
  match Json.get s "data" with
  | .arr data =>
    if data.head?.any isList then seriesEntry name [.str "x", .str "y"] (data.filter isList)
    else seriesEntry name [.str "index", .str "value"] (enumerated data)
  | _ => seriesEntry name [] []

/-- The members of an object. -/
def asObj : Json → Option (List (String × Json))
  | .obj fields => some fields
  | _ => none

/-- The objects in the list under a key. -/
def objectsAt (snapshot : Dict String Json) (key : String) : List (List (String × Json)) :=
  match snapshot.get? key with
  | some (.arr items) => items.filterMap asObj
  | _ => []

/-- The list under a key, if there is one. -/
def listAt (snapshot : Dict String Json) (key : String) : List Json :=
  match snapshot.get? key with
  | some (.arr items) => items
  | _ => []

/-- `title["text"]`, if there is one that counts. -/
def chartTitle (snapshot : Dict String Json) : Option Json :=
  match snapshot.get? "title" with
  | some (.obj fields) => if (Json.get fields "text").truthy then some (Json.get fields "text") else none
  | _ => none

/-- The note of a text block. -/
def noteOf (snapshot : Dict String Json) : Json :=
  match snapshot.get? "text" with
  | some text => text
  | none => .str (String.ofList (Json.obj snapshot.entries).spaced)

def extractStructured (item : Item) : Except String Extracted :=
  let snapshot := item.contentSnapshot
  match item.kind with
  | .chart => .ok {
      series := (objectsAt snapshot "series").map (chartEntry item.title)
      metadata := match chartTitle snapshot with
        | some text => Dict.ofList [("chart_title", text)]
        | none => ∅ }
  | .structured => .ok {
      metadata := match snapshot.get? "metadata" with
        | some (.obj fields) => Dict.ofList fields
        | _ => ∅
      points := listAt snapshot "points"
      series := listAt snapshot "series" }
  | .table => do
    let columns ← pyList (snapshot.getD "columns" .null)
    let rows ← pyList (snapshot.getD "rows" .null)
    return { series := [seriesEntry (.str item.title) columns rows] }
  | .text => .ok { metadata := Dict.ofList [("note", noteOf snapshot)] }
  | .other => .ok { metadata := Dict.ofList [("raw", .obj snapshot.entries)] }

/-! ## Merge -/

def setdefault (d : Dict String Json) (k : String) (v : Json) : Dict String Json :=
  match d.get? k with
  | some _ => d
  | none => d.set k v

/-- The metadata of one more item. -/
def addMetadata (merged metadata : Dict String Json) : Dict String Json :=
  metadata.entries.foldl (fun d e => if e.1 = "title" then d else setdefault d e.1 e.2) merged

/-- The question of one more item. -/
def addQuestion (questions : List String) (item : Item) : List String :=
  match item.sourceInfo.get? "question_text" with
  | some (.str q) => if isBlank q || questions.contains q then questions else questions ++ [q]
  | _ => questions

/-- The value of an `int`, which a `bool` is too. -/
def intValue : Json → Option Int
  | .int i => some i
  | .bool b => some (if b then 1 else 0)
  | _ => none

/-- The turn of one more item. -/
def addTurn (turns : List Json) (item : Item) : List Json :=
  match item.sourceInfo.get? "turn_number" with
  | some v =>
    match intValue v with
    | some i => if turns.any (fun t => intValue t == some i) then turns else turns ++ [v]
    | none => turns
  | none => turns

/-- The run of one more item. -/
def addRun (runs : List String) (item : Item) : List String :=
  match item.sourceInfo.get? "run_id" with
  | none => runs
  | some .null => runs
  | some v => if runs.contains v.pyStr then runs else runs ++ [v.pyStr]

/-- The provenance of an item. -/
def tracingOf (item : Item) : Json :=
  .obj [("bar_item_id", .str item.id), ("turn_number", item.sourceInfo.getD "turn_number" .null),
    ("block_type", .str item.blockType), ("title", .str item.title),
    ("question_text", item.sourceInfo.getD "question_text" (.str "")),
    ("preceding_text", item.sourceInfo.getD "preceding_text" (.str "")),
    ("content_snapshot", .obj item.contentSnapshot.entries)]

/-- The variables of the loop. -/
structure Acc where
  metadata : Dict String Json
  points : List Json := []
  series : List Json := []
  tracing : List Json := []
  questions : List String := []
  turns : List Json := []
  runs : List String := []

/-- One round. -/
def mergeItem (acc : Acc) (item : Item) : Except String Acc := do
  let extracted ← extractStructured item
  return {
    metadata := addMetadata acc.metadata extracted.metadata
    points := acc.points ++ extracted.points
    series := acc.series ++ extracted.series
    tracing := acc.tracing ++ [tracingOf item]
    questions := addQuestion acc.questions item
    turns := addTurn acc.turns item
    runs := addRun acc.runs item }

/-- All rounds. -/
def mergeItems (acc : Acc) : List Item → Except String Acc
  | [] => .ok acc
  | item :: items => (mergeItem acc item).bind (fun acc => mergeItems acc items)

/-- `sorted(source_turns)`. -/
def sortedTurns (turns : List Json) : List Json :=
  turns.insertionSort (fun a b => (intValue a).getD 0 ≤ (intValue b).getD 0)

/-- The summary of so many items from these turns. -/
def summaryOf (count : Nat) (turns : List Json) : String :=
  let turnsStr := "、".intercalate ((sortedTurns turns).map (fun t => "#" ++ t.pyStr))
  if turnsStr = "" then s!"基于 {count} 个分析区块，汇总得出以下结论。"
  else s!"基于 {count} 个分析区块（来自轮次 {turnsStr}），汇总得出以下结论。"

/-- The entries that are set behind the loop. -/
def assigned (count : Nat) (now : String) (questions : List String) (turns : List Json) (runs : List String) :
    List (String × Json) :=
  [("source_count", .int count), ("assembled_at", .str now), ("analysis_questions", .arr (questions.map .str)),
    ("source_turns", .arr turns), ("source_runs", .arr (runs.map .str)), ("summary", .str (summaryOf count turns))]

/-- The assembly. -/
structure Merged where
  metadata : Dict String Json
  points : List Json
  series : List Json
  tracing : List Json

/-- `_merge_structured`; `now` is the text of `datetime.now(UTC)`. -/
def mergeStructured (items : List Item) (title now : String) : Except String Merged := do
  let acc ← mergeItems { metadata := Dict.ofList [("title", .str title)] } items
  return {
    metadata := acc.metadata.setAll (assigned items.length now acc.questions acc.turns acc.runs)
    points := acc.points
    series := acc.series
    tracing := acc.tracing }

/-! ## Content -/

/-- The metadata entries of an item, its note and the title of its chart included. -/
def Item.metadata (i : Item) : Dict String Json :=
  match i.kind with
  | .chart =>
    match chartTitle i.contentSnapshot with
    | some text => Dict.ofList [("chart_title", text)]
    | none => ∅
  | .structured =>
    match i.contentSnapshot.get? "metadata" with
    | some (.obj fields) => Dict.ofList fields
    | _ => ∅
  | .table => ∅
  | .text => Dict.ofList [("note", noteOf i.contentSnapshot)]
  | .other => Dict.ofList [("raw", .obj i.contentSnapshot.entries)]

/-- The points of an item. -/
def Item.points (i : Item) : List Json :=
  match i.kind with
  | .structured => listAt i.contentSnapshot "points"
  | _ => []

/-- A series of an item: one of a chart with its data, a table with its rows, or any entry of a structured block. -/
inductive Series where
  | chart (name : String) (data : List Json)
  | table (name : String) (columns rows : List Json)
  | entry (value : Json)

/-- The data of a series of a chart. -/
def dataOf (s : List (String × Json)) : List Json :=
  match Json.get s "data" with
  | .arr data => data
  | _ => []

/-- The items of a value that can be iterated. -/
def itemsOf (value : Json) : List Json :=
  match pyList value with
  | .ok items => items
  | .error _ => []

/-- The series of an item. -/
def Item.series (i : Item) : List Series :=
  match i.kind with
  | .chart => (objectsAt i.contentSnapshot "series").map (fun s => .chart (chartName i.title s) (dataOf s))
  | .structured => (listAt i.contentSnapshot "series").map .entry
  | .table => [.table i.title (itemsOf (i.contentSnapshot.getD "columns" .null))
      (itemsOf (i.contentSnapshot.getD "rows" .null))]
  | _ => []

/-- An entry of the assembly shows a series with all its data, each element as it is: pairs as the rows, or any
elements numbered in the rows. -/
inductive Shows : Json → Series → Prop
  | entry (value : Json) : Shows value (.entry value)
  | table (name : String) (columns rows : List Json) :
      Shows (seriesEntry (.str name) columns rows) (.table name columns rows)
  | pairs (name : String) (data : List Json) (lists : ∀ x ∈ data, isList x = true) :
      Shows (seriesEntry (.str name) [.str "x", .str "y"] data) (.chart name data)
  | values (name : String) (data : List Json) :
      Shows (seriesEntry (.str name) [.str "index", .str "value"] (enumerated data)) (.chart name data)
  | nothing (name : String) : Shows (seriesEntry (.str name) [] []) (.chart name [])

/-- The question behind an item, if it is a text with a visible character. -/
def Item.question (i : Item) : Option String :=
  match i.sourceInfo.get? "question_text" with
  | some (.str q) => if isBlank q then none else some q
  | _ => none

/-- The number of its turn. -/
def Item.turn (i : Item) : Option Json :=
  match i.sourceInfo.get? "turn_number" with
  | some v => if (intValue v).isSome then some v else none
  | none => none

/-- The text of its run. -/
def Item.run (i : Item) : Option String :=
  match i.sourceInfo.get? "run_id" with
  | none => none
  | some .null => none
  | some v => some v.pyStr

/-- Two numbers are equal. -/
def sameTurn (a b : Json) : Bool := intValue a == intValue b

/-- What an assembly states about itself: the title, and six entries about its items. -/
def stated (items : List Item) (title now : String) : List (String × Json) :=
  ("title", .str title) :: assigned items.length now (items.filterMap Item.question).eraseDups
    ((items.filterMap Item.turn).eraseDupsBy sameTurn) (items.filterMap Item.run).eraseDups

/-! ## One item -/

/-- The columns and the rows of a table can be iterated. -/
def Item.Iterable (i : Item) : Prop :=
  i.kind = .table → (∃ items, pyList (i.contentSnapshot.getD "columns" .null) = .ok items) ∧
    ∃ items, pyList (i.contentSnapshot.getD "rows" .null) = .ok items

/-- The data of a chart begin with a list only if all of them are lists. -/
def Series.Unmixed : Series → Prop
  | .chart _ data => ∀ first, data.head? = some first → isList first = true → ∀ x ∈ data, isList x = true
  | _ => True

section Extraction

variable {i : Item} {e : Extracted}

theorem extract_iff : (∃ e, extractStructured i = .ok e) ↔ i.Iterable := by
  unfold extractStructured Item.Iterable
  cases i.kind with
  | chart => simp
  | structured => simp
  | table =>
    cases hcolumns : pyList (i.contentSnapshot.getD "columns" .null) with
    | error m =>
      simp only [hcolumns]
      constructor
      · rintro ⟨e, he⟩
        cases he
      · intro h
        obtain ⟨⟨items, hitems⟩, -⟩ := h trivial
        cases hitems
    | ok columns =>
      cases hrows : pyList (i.contentSnapshot.getD "rows" .null) with
      | error m =>
        simp only [hcolumns, hrows]
        constructor
        · rintro ⟨e, he⟩
          cases he
        · intro h
          obtain ⟨-, items, hitems⟩ := h trivial
          cases hitems
      | ok rows =>
        simp only [hcolumns, hrows]
        exact ⟨fun _ _ => ⟨⟨columns, rfl⟩, rows, rfl⟩, fun _ => ⟨_, rfl⟩⟩
  | text => simp
  | other => simp

theorem extract_table (hkind : i.kind = .table) (h : extractStructured i = .ok e) :
    ∃ columns rows, pyList (i.contentSnapshot.getD "columns" .null) = .ok columns ∧
      pyList (i.contentSnapshot.getD "rows" .null) = .ok rows ∧
      e = { series := [seriesEntry (.str i.title) columns rows] } := by
  unfold extractStructured at h
  rw [hkind] at h
  cases hcolumns : pyList (i.contentSnapshot.getD "columns" .null) with
  | error m => simp only [hcolumns] at h; cases h
  | ok columns =>
    cases hrows : pyList (i.contentSnapshot.getD "rows" .null) with
    | error m => simp only [hcolumns, hrows] at h; cases h
    | ok rows =>
      simp only [hcolumns, hrows] at h
      exact ⟨columns, rows, rfl, rfl, (Except.ok.inj h).symm⟩

theorem extract_metadata (h : extractStructured i = .ok e) : e.metadata = i.metadata := by
  unfold Item.metadata
  cases hkind : i.kind with
  | table =>
    obtain ⟨columns, rows, -, -, rfl⟩ := extract_table hkind h
    rfl
  | _ =>
    unfold extractStructured at h
    rw [hkind] at h
    rw [← Except.ok.inj h]

theorem extract_points (h : extractStructured i = .ok e) : e.points = i.points := by
  unfold Item.points
  cases hkind : i.kind with
  | table =>
    obtain ⟨columns, rows, -, -, rfl⟩ := extract_table hkind h
    rfl
  | _ =>
    unfold extractStructured at h
    rw [hkind] at h
    rw [← Except.ok.inj h]

theorem seriesEntry_inj {name name' : Json} {columns columns' rows rows' : List Json}
    (h : seriesEntry name columns rows = seriesEntry name' columns' rows') :
    name = name' ∧ columns = columns' ∧ rows = rows' := by
  unfold seriesEntry at h
  simpa using h

/-- **A chart series is shown** exactly if it is not mixed. -/
theorem shows_chartEntry (title : String) (s : List (String × Json)) :
    Shows (chartEntry title s) (.chart (chartName title s) (dataOf s)) ↔
      (Series.chart (chartName title s) (dataOf s)).Unmixed := by
  unfold chartEntry dataOf Series.Unmixed
  cases Json.get s "data" with
  | arr data =>
    dsimp only
    split
    · next hpairs =>
        -- rows of pairs: what is no list has been dropped
        obtain ⟨first, hfirst, hlist⟩ := (Option.any_eq_true _ _).mp hpairs
        constructor
        · intro h
          generalize hentry : seriesEntry _ [Json.str "x", Json.str "y"] (data.filter isList) = entry at h
          generalize hseries : Series.chart _ data = series at h
          intro _ _ _
          cases h with
          | pairs name data' hall =>
            obtain ⟨-, rfl⟩ := Series.chart.inj hseries
            exact hall
          | values name data' | nothing name =>
            have hcolumns := (seriesEntry_inj hentry).2.1
            simp at hcolumns
          | entry value | table name columns rows => cases hseries
        · intro h
          have hall := h first hfirst hlist
          rw [List.filter_eq_self.mpr hall]
          exact .pairs _ data hall
    · next hpairs =>
        refine ⟨fun _ first hfirst hlist => ?_, fun _ => .values _ data⟩
        rw [hfirst, Option.any_some] at hpairs
        exact absurd hlist hpairs
  | _ => exact ⟨fun _ first hfirst => (by cases hfirst), fun _ => .nothing _⟩

/-- **The entries show the series of the item** that are not mixed, one by one. -/
theorem shows_extracted (h : extractStructured i = .ok e) :
    List.Forall₂ (fun entry s => Shows entry s ↔ s.Unmixed) e.series i.series := by
  unfold Item.series
  cases hkind : i.kind with
  | chart =>
    unfold extractStructured at h
    rw [hkind] at h
    rw [← Except.ok.inj h]
    show List.Forall₂ _ ((objectsAt i.contentSnapshot "series").map (chartEntry i.title)) _
    rw [List.forall₂_map_left_iff, List.forall₂_map_right_iff, List.forall₂_same]
    intro s _
    exact shows_chartEntry i.title s
  | structured =>
    unfold extractStructured at h
    rw [hkind] at h
    rw [← Except.ok.inj h]
    show List.Forall₂ _ (listAt i.contentSnapshot "series") _
    rw [List.forall₂_map_right_iff, List.forall₂_same]
    intro value _
    exact ⟨fun _ => trivial, fun _ => .entry value⟩
  | table =>
    obtain ⟨columns, rows, hcolumns, hrows, rfl⟩ := extract_table hkind h
    have hitems : itemsOf (i.contentSnapshot.getD "columns" .null) = columns ∧
        itemsOf (i.contentSnapshot.getD "rows" .null) = rows := by
      unfold itemsOf
      rw [hcolumns, hrows]
      exact ⟨rfl, rfl⟩
    show List.Forall₂ _ [seriesEntry (.str i.title) columns rows] [_]
    rw [hitems.1, hitems.2]
    exact .cons ⟨fun _ => trivial, fun _ => .table _ _ _⟩ .nil
  | text | other =>
    unfold extractStructured at h
    rw [hkind] at h
    rw [← Except.ok.inj h]
    exact .nil

end Extraction

/-! ## Loops -/

/-- `if x not in seen: seen.append(x)`. -/
def addNew {α : Type} (r : α → α → Bool) (seen : List α) (x : α) : List α :=
  if seen.any (r x) then seen else seen ++ [x]

theorem foldl_addNew {α : Type} (r : α → α → Bool) (xs seen : List α) :
    xs.foldl (addNew r) seen = List.eraseDupsBy.loop r xs seen.reverse := by
  induction xs generalizing seen with
  | nil => exact (List.reverse_reverse seen).symm
  | cons x xs ih =>
    rw [List.foldl_cons, ih, List.eraseDupsBy.loop, List.any_reverse]
    unfold addNew
    cases seen.any (r x) with
    | true => rfl
    | false =>
      show List.eraseDupsBy.loop r xs (seen ++ [x]).reverse = List.eraseDupsBy.loop r xs (x :: seen.reverse)
      rw [List.reverse_append]
      rfl

theorem foldl_collect {α β : Type} {add : List β → α → List β} {f : α → Option β} {r : β → β → Bool}
    (h : ∀ seen a, add seen a = (f a).elim seen (addNew r seen)) (as : List α) (seen : List β) :
    as.foldl add seen = (as.filterMap f).foldl (addNew r) seen := by
  induction as generalizing seen with
  | nil => rfl
  | cons a as ih =>
    rw [List.foldl_cons, h, List.filterMap_cons]
    cases f a with
    | none => exact ih seen
    | some b => exact ih (addNew r seen b)

theorem collect_eq {α β : Type} {add : List β → α → List β} {f : α → Option β} {r : β → β → Bool}
    (h : ∀ seen a, add seen a = (f a).elim seen (addNew r seen)) (as : List α) :
    as.foldl add [] = (as.filterMap f).eraseDupsBy r := by
  rw [foldl_collect h, foldl_addNew]
  rfl

theorem addQuestion_eq (questions : List String) (i : Item) :
    addQuestion questions i = i.question.elim questions (addNew (· == ·) questions) := by
  unfold addQuestion Item.question
  split
  · next q _ =>
      rw [List.contains_eq_any_beq]
      cases isBlank q with
      | true => rfl
      | false => rfl
  · rfl

theorem addTurn_eq (turns : List Json) (i : Item) :
    addTurn turns i = i.turn.elim turns (addNew sameTurn turns) := by
  unfold addTurn Item.turn
  cases i.sourceInfo.get? "turn_number" with
  | none => rfl
  | some v =>
    dsimp only
    cases hv : intValue v with
    | none => rfl
    | some n =>
      show (if turns.any (fun t => intValue t == some n) then turns else turns ++ [v]) = addNew sameTurn turns v
      unfold addNew sameTurn
      simp only [hv, Bool.beq_comm]

theorem addRun_eq (runs : List String) (i : Item) :
    addRun runs i = i.run.elim runs (addNew (· == ·) runs) := by
  unfold addRun Item.run
  split
  · rfl
  · rfl
  · rw [List.contains_eq_any_beq]
    rfl

/-! ## Metadata -/

section Metadata

variable (d : Dict String Json)

theorem get?_setdefault (k k' : String) (v : Json) :
    (setdefault d k v).get? k' = (d.get? k').or (if k' = k then some v else none) := by
  unfold setdefault
  cases hk : d.get? k with
  | some w =>
    by_cases h : k' = k
    · rw [h, hk]
      rfl
    · rw [if_neg h, Option.or_none]
  | none =>
    show (d.set k v).get? k' = _
    rw [Dict.get?_set]
    by_cases h : k' = k
    · rw [if_pos h, if_pos h, h, hk]
      rfl
    · rw [if_neg h, if_neg h, Option.or_none]

theorem get?_foldl_setdefault (es : List (String × Json)) (k : String) :
    (es.foldl (fun d e => if e.1 = "title" then d else setdefault d e.1 e.2) d).get? k =
      (d.get? k).or (if k = "title" then none else (es.find? (fun e => e.1 = k)).map Prod.snd) := by
  induction es generalizing d with
  | nil => simp
  | cons e es ih =>
    rw [List.foldl_cons, ih, List.find?_cons]
    by_cases htitle : e.1 = "title"
    · rw [if_pos htitle]
      by_cases hk : k = "title"
      · rw [if_pos hk, if_pos hk]
      · have hne : ¬ e.1 = k := fun h => hk (h.symm.trans htitle)
        simp [hk, hne]
    · rw [if_neg htitle, get?_setdefault, Option.or_assoc]
      by_cases hk : k = "title"
      · have hne : ¬ k = e.1 := fun h => htitle (h.symm.trans hk)
        rw [if_pos hk, if_pos hk, if_neg hne]
        rfl
      · rw [if_neg hk, if_neg hk]
        by_cases he : k = e.1
        · simp [he]
        · have hne : ¬ e.1 = k := fun h => he h.symm
          simp [he, hne]

theorem get?_addMetadata (metadata : Dict String Json) (k : String) :
    (addMetadata d metadata).get? k = (d.get? k).or (if k = "title" then none else metadata.get? k) :=
  get?_foldl_setdefault d metadata.entries k

/-- **The first item with a key counts.** -/
theorem get?_foldl_addMetadata (items : List Item) (k : String) :
    (items.foldl (fun d i => addMetadata d i.metadata) d).get? k =
      (d.get? k).or (if k = "title" then none else items.findSome? (fun i => i.metadata.get? k)) := by
  induction items generalizing d with
  | nil => simp
  | cons i items ih =>
    rw [List.foldl_cons, ih, get?_addMetadata, Option.or_assoc]
    by_cases hk : k = "title"
    · rw [if_pos hk, if_pos hk, if_pos hk]
      rfl
    · rw [if_neg hk, if_neg hk, if_neg hk, List.findSome?_cons]
      cases i.metadata.get? k with
      | some v => rfl
      | none => rfl

theorem keys_set (k : String) (v : Json) : (d.set k v).keys = addNew (· == ·) d.keys k := by
  show (Dict.setEntries k v d.entries).map Prod.fst = _
  rw [Dict.keys_setEntries]
  unfold addNew
  rw [← List.contains_eq_any_beq]
  by_cases hk : k ∈ d.keys
  · rw [if_pos (List.contains_iff_mem.mpr hk)]
    exact if_pos hk
  · rw [if_neg (fun h => hk (List.contains_iff_mem.mp h))]
    exact if_neg hk

theorem keys_setAll (es : List (String × Json)) :
    (d.setAll es).keys = (es.map Prod.fst).foldl (addNew (· == ·)) d.keys := by
  unfold Dict.setAll
  induction es generalizing d with
  | nil => rfl
  | cons e es ih => rw [List.foldl_cons, ih, keys_set, List.map_cons, List.foldl_cons]

theorem addNew_of_mem {k : String} (h : k ∈ d.keys) : addNew (· == ·) d.keys k = d.keys := by
  unfold addNew
  rw [← List.contains_eq_any_beq]
  exact if_pos (List.contains_iff_mem.mpr h)

theorem keys_setdefault (k : String) (v : Json) : (setdefault d k v).keys = addNew (· == ·) d.keys k := by
  unfold setdefault
  cases hk : d.get? k with
  | some w => exact (addNew_of_mem d (Dict.mem_keys_iff.mpr ⟨w, hk⟩)).symm
  | none => exact keys_set d k v

theorem keys_foldl_setdefault (es : List (String × Json)) (h : "title" ∈ d.keys) :
    (es.foldl (fun d e => if e.1 = "title" then d else setdefault d e.1 e.2) d).keys =
      (es.map Prod.fst).foldl (addNew (· == ·)) d.keys := by
  induction es generalizing d with
  | nil => rfl
  | cons e es ih =>
    rw [List.foldl_cons, List.map_cons, List.foldl_cons]
    by_cases htitle : e.1 = "title"
    · rw [if_pos htitle, ih d h, htitle, addNew_of_mem d h]
    · have hkeep : "title" ∈ (setdefault d e.1 e.2).keys := by
        rw [Dict.mem_keys_iff] at h ⊢
        obtain ⟨w, hw⟩ := h
        exact ⟨w, by rw [get?_setdefault, hw]; rfl⟩
      rw [if_neg htitle, ih _ hkeep, keys_setdefault]

theorem keys_foldl_addMetadata (items : List Item) (h : "title" ∈ d.keys) :
    (items.foldl (fun d i => addMetadata d i.metadata) d).keys =
      (items.flatMap (fun i => i.metadata.keys)).foldl (addNew (· == ·)) d.keys := by
  induction items generalizing d with
  | nil => rfl
  | cons i items ih =>
    have hkeep : "title" ∈ (addMetadata d i.metadata).keys := by
      rw [Dict.mem_keys_iff] at h ⊢
      obtain ⟨w, hw⟩ := h
      exact ⟨w, by rw [get?_addMetadata, hw]; rfl⟩
    rw [List.foldl_cons, ih _ hkeep, List.flatMap_cons, List.foldl_append]
    congr 1
    exact keys_foldl_setdefault d i.metadata.entries h

end Metadata

/-! ## All items -/

theorem mergeItem_iff {acc acc' : Acc} {i : Item} :
    mergeItem acc i = .ok acc' ↔ ∃ e, extractStructured i = .ok e ∧ acc' = {
      metadata := addMetadata acc.metadata e.metadata
      points := acc.points ++ e.points
      series := acc.series ++ e.series
      tracing := acc.tracing ++ [tracingOf i]
      questions := addQuestion acc.questions i
      turns := addTurn acc.turns i
      runs := addRun acc.runs i } := by
  unfold mergeItem
  cases extractStructured i with
  | error m =>
    constructor
    · intro h
      cases h
    · rintro ⟨e, he, -⟩
      cases he
  | ok e =>
    constructor
    · intro h
      exact ⟨e, rfl, (Except.ok.inj h).symm⟩
    · rintro ⟨e', he, rfl⟩
      rw [← Except.ok.inj he]
      rfl

theorem mergeItems_ends_iff {items : List Item} (acc : Acc) :
    (∃ acc', mergeItems acc items = .ok acc') ↔ ∀ i ∈ items, i.Iterable := by
  induction items generalizing acc with
  | nil => exact ⟨fun _ i hi => (by cases hi), fun _ => ⟨acc, rfl⟩⟩
  | cons i items ih =>
    rw [List.forall_mem_cons, ← extract_iff]
    show (∃ acc', (mergeItem acc i).bind (fun acc => mergeItems acc items) = .ok acc') ↔ _
    cases hround : mergeItem acc i with
    | error m =>
      constructor
      · rintro ⟨acc', h⟩
        cases h
      · rintro ⟨⟨e, he⟩, -⟩
        have hdone : mergeItem acc i = .ok _ := mergeItem_iff.mpr ⟨e, he, rfl⟩
        rw [hround] at hdone
        cases hdone
    | ok next =>
      obtain ⟨e, he, -⟩ := mergeItem_iff.mp hround
      rw [← ih next]
      exact ⟨fun h => ⟨⟨e, he⟩, h⟩, fun h => h.2⟩

/-- What the loop has gathered in the end. -/
structure Gathered (acc : Acc) (items : List Item) (acc' : Acc) : Prop where
  metadata : acc'.metadata = items.foldl (fun d i => addMetadata d i.metadata) acc.metadata
  points : acc'.points = acc.points ++ items.flatMap Item.points
  series : ∃ more, acc'.series = acc.series ++ more ∧
    List.Forall₂ (fun entry s => Shows entry s ↔ s.Unmixed) more (items.flatMap Item.series)
  questions : acc'.questions = items.foldl addQuestion acc.questions
  turns : acc'.turns = items.foldl addTurn acc.turns
  runs : acc'.runs = items.foldl addRun acc.runs

theorem mergeItems_gathered {items : List Item} {acc acc' : Acc} (h : mergeItems acc items = .ok acc') :
    Gathered acc items acc' := by
  induction items generalizing acc with
  | nil =>
    rw [← Except.ok.inj h]
    exact ⟨rfl, (List.append_nil _).symm, ⟨[], (List.append_nil _).symm, .nil⟩, rfl, rfl, rfl⟩
  | cons i items ih =>
    obtain ⟨next, hround, hrest⟩ : ∃ next, mergeItem acc i = .ok next ∧ mergeItems next items = .ok acc' := by
      unfold mergeItems at h
      cases hround : mergeItem acc i with
      | error m =>
        rw [hround] at h
        cases h
      | ok next =>
        rw [hround] at h
        exact ⟨next, rfl, h⟩
    obtain ⟨e, he, rfl⟩ := mergeItem_iff.mp hround
    have hgathered := ih hrest
    obtain ⟨more, hmore, hshows⟩ := hgathered.series
    refine ⟨?_, ?_, ⟨e.series ++ more, ?_, ?_⟩, hgathered.questions, hgathered.turns, hgathered.runs⟩
    · rw [hgathered.metadata, List.foldl_cons, ← extract_metadata he]
    · rw [hgathered.points, List.flatMap_cons, ← extract_points he, List.append_assoc]
    · rw [hmore, List.append_assoc]
    · rw [List.flatMap_cons]
      exact List.rel_append (shows_extracted he) hshows

/-- **The value under a key**: what the assembly states, else the value of the first item with the key. -/
theorem get?_assembled (items : List Item) (title k : String) (es : List (String × Json)) :
    ((items.foldl (fun d i => addMetadata d i.metadata) (Dict.ofList [("title", .str title)])).setAll es).get? k =
      ((Dict.ofList (("title", .str title) :: es)).get? k).or (items.findSome? (fun i => i.metadata.get? k)) := by
  have htitle : (Dict.ofList [("title", Json.str title)]).get? k =
      ([("title", Json.str title)].find? (fun e => e.1 = k)).map Prod.snd := Dict.get?_ofList _ k
  rw [Dict.get?_setAll, get?_foldl_addMetadata, htitle, Dict.get?_ofList, List.reverse_cons, List.find?_append,
    Option.map_or, Option.or_assoc]
  by_cases hk : k = "title"
  · rw [if_pos hk, hk]
    rfl
  · rw [if_neg hk]

/-! ## Result -/

section Result

variable {items : List Item} {title now : String} {m : Merged}

variable {k : String}

theorem get?_stated {v : Json} :
    (Dict.ofList (stated items title now)).get? k = some v ↔ (k, v) ∈ stated items title now := by
  have hnd : ((stated items title now).map Prod.fst).Nodup := by
    show ["title", "source_count", "assembled_at", "analysis_questions", "source_turns", "source_runs",
      "summary"].Nodup
    decide
  rw [Dict.get?_eq_some_iff, Dict.entries_ofList hnd]

/-- What an assembly is made of. -/
structure MadeOf (items : List Item) (title now : String) (m : Merged) : Prop where
  points : m.points = items.flatMap Item.points
  series : List.Forall₂ (fun entry s => Shows entry s ↔ s.Unmixed) m.series (items.flatMap Item.series)
  metadata : ∀ k, m.metadata.get? k = ((Dict.ofList (stated items title now)).get? k).or
    (items.findSome? (fun i => i.metadata.get? k))
  keys : m.metadata.keys =
    ("title" :: items.flatMap (fun i => i.metadata.keys) ++ (stated items title now).tail.map Prod.fst).eraseDups

theorem mergeStructured_madeOf (h : mergeStructured items title now = .ok m) : MadeOf items title now m := by
  unfold mergeStructured at h
  cases hloop : mergeItems { metadata := Dict.ofList [("title", .str title)] } items with
  | error m' =>
    rw [hloop] at h
    cases h
  | ok acc =>
    rw [hloop] at h
    have hgathered := mergeItems_gathered hloop
    obtain ⟨more, hmore, hshows⟩ := hgathered.series
    have hes : assigned items.length now acc.questions acc.turns acc.runs = (stated items title now).tail := by
      rw [hgathered.questions, hgathered.turns, hgathered.runs]
      show assigned _ _ (items.foldl addQuestion []) (items.foldl addTurn []) (items.foldl addRun []) = _
      rw [collect_eq addQuestion_eq, collect_eq addTurn_eq, collect_eq addRun_eq]
      rfl
    rw [← Except.ok.inj h]
    refine ⟨hgathered.points, ?_, fun k => ?_, ?_⟩
    · show List.Forall₂ _ acc.series _
      rw [hmore]
      exact hshows
    · show (acc.metadata.setAll (assigned items.length now acc.questions acc.turns acc.runs)).get? k = _
      rw [hes, hgathered.metadata]
      exact get?_assembled items title k (stated items title now).tail
    · show (acc.metadata.setAll (assigned items.length now acc.questions acc.turns acc.runs)).keys = _
      have htitle : "title" ∈ (Dict.ofList [("title", Json.str title)]).keys := List.mem_singleton.mpr rfl
      rw [hes, hgathered.metadata, keys_setAll, keys_foldl_addMetadata _ items htitle, ← List.foldl_append]
      exact foldl_addNew (· == ·) _ ["title"]

theorem merged_iff : (∃ m, mergeStructured items title now = .ok m) ↔ ∀ i ∈ items, i.Iterable := by
  rw [← mergeItems_ends_iff { metadata := Dict.ofList [("title", .str title)] }]
  unfold mergeStructured
  cases mergeItems { metadata := Dict.ofList [("title", .str title)] } items with
  | error m =>
    constructor
    · rintro ⟨m, h⟩
      cases h
    · rintro ⟨acc, h⟩
      cases h
  | ok acc => exact ⟨fun _ => ⟨acc, rfl⟩, fun _ => ⟨_, rfl⟩⟩

theorem MadeOf.stated_mem (hmade : MadeOf items title now m) {v : Json}
    (h : (k, v) ∈ stated items title now) : m.metadata.get? k = some v := by
  rw [hmade.metadata k, get?_stated.mpr h]
  rfl

theorem MadeOf.first (hmade : MadeOf items title now m) (h : ∀ v, (k, v) ∉ stated items title now) :
    m.metadata.get? k = items.findSome? (fun i => i.metadata.get? k) := by
  rw [hmade.metadata k]
  cases hstated : (Dict.ofList (stated items title now)).get? k with
  | some v => exact absurd (get?_stated.mp hstated) (h v)
  | none => rfl

theorem MadeOf.agreed (hmade : MadeOf items title now m) {i : Item} {v : Json} (hi : i ∈ items)
    (hv : i.metadata.get? k = some v) (hstated : ∀ w, (k, w) ∈ stated items title now → v = w)
    (hagree : ∀ j ∈ items, ∀ w, j.metadata.get? k = some w → v = w) : m.metadata.get? k = some v := by
  rw [hmade.metadata k]
  cases hown : (Dict.ofList (stated items title now)).get? k with
  | some w =>
    rw [hstated w (get?_stated.mp hown)]
    rfl
  | none =>
    cases hfirst : items.findSome? (fun i => i.metadata.get? k) with
    | none =>
      have hno := List.findSome?_eq_none_iff.mp hfirst i hi
      rw [hv] at hno
      cases hno
    | some w =>
      obtain ⟨j, hj, hw⟩ := List.exists_of_findSome?_eq_some hfirst
      rw [hagree j hj w hw]
      rfl

theorem MadeOf.only (hmade : MadeOf items title now m) {v : Json} (hv : m.metadata.get? k = some v) :
    (k, v) ∈ stated items title now ∨ ∃ i ∈ items, i.metadata.get? k = some v := by
  rw [hmade.metadata k] at hv
  cases hown : (Dict.ofList (stated items title now)).get? k with
  | some w =>
    rw [hown] at hv
    rw [← Option.some.inj hv]
    exact .inl (get?_stated.mp hown)
  | none =>
    rw [hown, Option.none_or] at hv
    exact .inr (List.exists_of_findSome?_eq_some hv)

end Result

/-- **The content of the items is conserved**: the points; the series, with all their data; every metadata entry with its
value; the order of the items; and nothing beside what the assembly states. -/
structure Conserves (items : List Item) (title now : String) (m : Merged) : Prop where
  points : m.points = items.flatMap Item.points
  series : List.Forall₂ Shows m.series (items.flatMap Item.series)
  metadata : ∀ i ∈ items, ∀ k v, i.metadata.get? k = some v → m.metadata.get? k = some v
  order : m.metadata.keys =
    ("title" :: items.flatMap (fun i => i.metadata.keys) ++ (stated items title now).tail.map Prod.fst).eraseDups
  only : ∀ k v, m.metadata.get? k = some v →
    (k, v) ∈ stated items title now ∨ ∃ i ∈ items, i.metadata.get? k = some v

/-- **What the assembly conserves by design**: the points; the series, each one of a chart with all its data if it is not
mixed; its own seven entries; under any other key but that of notes the value of the first item with the key; and a note
that no other contradicts. -/
structure Assembled (items : List Item) (title now : String) (m : Merged) : Prop where
  points : m.points = items.flatMap Item.points
  series : List.Forall₂ (fun entry s => s.Unmixed → Shows entry s) m.series (items.flatMap Item.series)
  own : ∀ k v, (k, v) ∈ stated items title now → m.metadata.get? k = some v
  first : ∀ k, k ≠ "note" → (∀ v, (k, v) ∉ stated items title now) →
    m.metadata.get? k = items.findSome? (fun i => i.metadata.get? k)
  note : ∀ i ∈ items, ∀ v, i.metadata.get? "note" = some v →
    (∀ j ∈ items, ∀ w, j.metadata.get? "note" = some w → v = w) → m.metadata.get? "note" = some v
  order : m.metadata.keys =
    ("title" :: items.flatMap (fun i => i.metadata.keys) ++ (stated items title now).tail.map Prod.fst).eraseDups
  only : ∀ k v, m.metadata.get? k = some v →
    (k, v) ∈ stated items title now ∨ ∃ i ∈ items, i.metadata.get? k = some v

/-- **Every list of items whose tables can be read is assembled so**, and no other list is assembled. -/
theorem assembled_iff (items : List Item) (title now : String) :
    (∃ m, mergeStructured items title now = .ok m ∧ Assembled items title now m) ↔ ∀ i ∈ items, i.Iterable := by
  constructor
  · rintro ⟨m, hm, -⟩
    exact merged_iff.mp ⟨m, hm⟩
  · intro htables
    obtain ⟨m, hm⟩ := merged_iff.mpr htables
    have hmade := mergeStructured_madeOf hm
    refine ⟨m, hm, hmade.points, ?_, fun k v hv => hmade.stated_mem hv, fun k _ hk => hmade.first hk, ?_, hmade.keys,
      fun k v hv => hmade.only hv⟩
    · exact hmade.series.imp (fun _ _ h => h.mpr)
    · intro i hi v hv hagree
      refine hmade.agreed hi hv (fun w hw => ?_) hagree
      -- the key of notes is none of the seven
      have hkey : "note" ∈ ["title", "source_count", "assembled_at", "analysis_questions", "source_turns", "source_runs",
        "summary"] := List.mem_map_of_mem (f := Prod.fst) hw
      exact absurd hkey (by decide)

/-- Two blocks with the same key. -/
def twoBlocks : List Item :=
  [{ id := "a", blockType := "structured", title := "第一",
     contentSnapshot := Dict.ofList [("metadata", .obj [("unit", .str "℃")])] },
   { id := "b", blockType := "structured", title := "第二",
     contentSnapshot := Dict.ofList [("metadata", .obj [("unit", .str "kPa")])] }]

/-- The second unit is in no entry. -/
theorem not_conserves_second_unit :
    ¬ ∃ m, mergeStructured twoBlocks "结论" "2026-01-01T00:00:00+00:00" = .ok m ∧
      Conserves twoBlocks "结论" "2026-01-01T00:00:00+00:00" m := by
  rintro ⟨m, hm, hconserves⟩
  have hfirst := hconserves.metadata _ List.mem_cons_self "unit" (.str "℃") rfl
  have hsecond := hconserves.metadata _ (List.mem_cons_of_mem _ List.mem_cons_self) "unit" (.str "kPa") rfl
  rw [hfirst] at hsecond
  exact absurd (Json.str.inj (Option.some.inj hsecond)) (by decide)

end Irip.Conclusions.Assembly
