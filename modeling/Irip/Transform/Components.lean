import Mathlib.Algebra.Group.Nat.Defs
import Mathlib.Data.List.Basic
import Irip.Base.Dict

/-!
# `Transform.Components` — the components that take a table of observations and give one

Each component builds a new table from the rows of the one it gets, and hands on the tuple of locations.
-/

namespace Irip.Transform

/-! ## Tables -/

/-- A value in a row. -/
inductive Cell where
  | none
  | str (s : String)
  | bool (b : Bool)
  | int (n : Int)
  | float (x : Float)
  | other (text : String)

abbrev Row := Dict String Cell

/-- Where a row was read: the file, the sheet, the line. -/
abbrev Location := List (String × String)

structure ObservationTable where
  columns : List String := []
  rows : List Row := []
  sourceLocations : List Location := []

/-- What a component raises. -/
inductive Raised where
  | overflow
  | pandas (message : String)

/-- A row-level annotation of the outlier report. -/
structure Annotation where
  rowIndex : Nat
  column : String
  value : Float
  median : Float
  mad : Float
  zScore : Float
  status : String := "outlier"

/-- What a component returns: the table, and what it has to say. -/
structure Output where
  observations : ObservationTable
  warnings : List String := []
  rowAnnotations : List Annotation := []

/-- `float(n)`: integers that a double cannot hold raise. -/
def floatOfInt (n : Int) : Except Raised Float :=
  if 2 ^ 1024 - 2 ^ 970 ≤ n.natAbs then .error .overflow else .ok (Float.ofInt n)

/-- `float(val)` where `isinstance(val, (int, float))`. -/
def Cell.number : Cell → Option (Except Raised Float)
  | .bool b => some (floatOfInt (if b then 1 else 0))
  | .int n => some (floatOfInt n)
  | .float x => some (.ok x)
  | _ => Option.none

/-- `val is None or val == ""`, of `row.get(col)`. -/
def isMissing (row : Row) (col : String) : Bool :=
  match row.get? col with
  | Option.none => true
  | some .none => true
  | some (.str "") => true
  | _ => false

/-! ## Missing values -/

/-- `columns if columns else list(table.columns)`. -/
def targetColumns (columns : Option (List String)) (table : ObservationTable) : List String :=
  match columns with
  | some (col :: cols) => col :: cols
  | _ => table.columns

/-- A row with the missing values of the columns filled. -/
def fill (cols : List String) (value : Cell) (row : Row) : Row :=
  cols.foldl (fun r col => if isMissing r col then r.set col value else r) row

/-- A row with the missing values taken from the last row that had one, and the last values after it. -/
def fillForward (cols : List String) (last : Dict String Cell) (row : Row) : Dict String Cell × Row :=
  cols.foldl (fun (last, r) col =>
    if isMissing r col then
      match last.get? col with
      | some value => (last, r.set col value)
      | Option.none => (last, r)
    else (last.set col (r.getD col .none), r)) (last, row)

/-- The loop of `forward_fill`. -/
def forwardFill (cols : List String) : Dict String Cell → List Row → List Row
  | _, [] => []
  | last, row :: rows =>
    let filled := fillForward cols last row
    filled.2 :: forwardFill cols filled.1 rows

/-- The row has a value in each of the columns. -/
def isComplete (cols : List String) (row : Row) : Bool := cols.all (fun col => !isMissing row col)

/-- `MissingValues.execute`. -/
def missingValues (strategy : String) (columns : Option (List String)) (fillValue : Cell) (table : ObservationTable) :
    Output :=
  let cols := targetColumns columns table
  if strategy = "reject" then
    let kept := table.rows.filter (isComplete cols)
    let removed := table.rows.length - kept.length
    { observations := { table with rows := kept },
      warnings := if 0 < removed then ["删除 " ++ toString removed ++ " 行含缺失值"] else [] }
  else if strategy = "null" then
    { observations := { table with rows := table.rows.map (fill cols .none) } }
  else if strategy = "forward_fill" then
    { observations := { table with rows := forwardFill cols ∅ table.rows } }
  else if strategy = "constant" then
    let value := match fillValue with
      | .none => .int 0
      | value => value
    { observations := { table with rows := table.rows.map (fill cols value) } }
  else { observations := table, warnings := ["未知策略: " ++ strategy] }

/-! ## Row by row -/

/-- A conversion rule. -/
structure Conversion where
  column : String
  fromUnit : String := ""
  toUnit : String := ""
  factor : Option Float := Option.none

def predefinedFactors : List (String × List (String × Float)) :=
  [("mm", [("um", 1000.0), ("nm", 1000000.0), ("cm", 0.1)]),
   ("um", [("mm", 0.001), ("nm", 1000.0)]),
   ("cm", [("mm", 10.0), ("m", 0.01)]),
   ("m", [("cm", 100.0), ("mm", 1000.0)]),
   ("g", [("mg", 1000.0), ("kg", 0.001)]),
   ("mg", [("g", 0.001), ("ug", 1000.0)]),
   ("s", [("ms", 1000.0), ("us", 1000000.0)]),
   ("min", [("s", 60.0), ("h", 1.0 / 60.0)])]

def resolveFactor (fromUnit toUnit : String) (factor : Option Float) : Except String Float :=
  match factor with
  | some f => .ok f
  | Option.none =>
    match ((predefinedFactors.lookup fromUnit).getD []).lookup toUnit with
    | some f => .ok f
    | Option.none =>
      if fromUnit = toUnit then .ok 1.0 else .error ("未知的单位转换: " ++ fromUnit ++ " → " ++ toUnit)

/-- The factors by column, and a warning for each conversion that is not known. -/
def columnFactors : List Conversion → Dict String Float × List String → Dict String Float × List String
  | [], acc => acc
  | conv :: convs, (factors, warnings) =>
    match resolveFactor conv.fromUnit conv.toUnit conv.factor with
    | .ok factor => columnFactors convs (factors.set conv.column factor, warnings)
    | .error message => columnFactors convs (factors, warnings ++ [message])

/-- One row with the values of the columns multiplied. -/
def convertRow : List (String × Float) → Row → Except Raised Row
  | [], row => .ok row
  | (col, factor) :: factors, row =>
    match (row.get? col).bind Cell.number with
    | Option.none => convertRow factors row
    | some (.error e) => .error e
    | some (.ok value) => convertRow factors (row.set col (.float (value * factor)))

/-- `UnitConverter.execute`. -/
def unitConverter (conversions : List Conversion) (table : ObservationTable) : Except Raised Output :=
  let resolved := columnFactors conversions (∅, [])
  match table.rows.mapM (convertRow resolved.1.entries) with
  | .error e => .error e
  | .ok rows => .ok { observations := { table with rows := rows }, warnings := resolved.2 }

/-- `statistics.median` of a list that is not empty. -/
def median (values : List Float) : Float :=
  let sorted := values.mergeSort (fun x y => !decide (y < x))
  let n := sorted.length
  if n % 2 = 1 then sorted.getD (n / 2) 0.0
  else (sorted.getD (n / 2 - 1) 0.0 + sorted.getD (n / 2) 0.0) / 2.0

/-- The annotations and the warnings of one column. -/
def annotateColumn (threshold : Float) (rows : List Row) (col : String) :
    Except Raised (List Annotation × List String) :=
  match (rows.filterMap (fun row => (row.get? col).bind Cell.number)).mapM id with
  | .error e => .error e
  | .ok values =>
    if values.length < 3 then .ok ([], ["列 " ++ col ++ " 有效值不足 3 个，跳过"])
    else
      let mid := median values
      let mad := median (values.map (fun v => (v - mid).abs))
      if mad == 0.0 then .ok ([], ["列 " ++ col ++ " MAD=0，无法检测异常值"])
      else .ok (rows.zipIdx.filterMap (fun (row, idx) =>
        match (row.get? col).bind Cell.number with
        | some (.ok value) =>
          let zScore := (value - mid).abs / (1.4826 * mad)
          if threshold < zScore then
            some { rowIndex := idx, column := col, value := value, median := mid, mad := mad, zScore := zScore }
          else Option.none
        | _ => Option.none), [])

def flagColumn (col : String) : String := col ++ "_outlier"

/-- A row with a flag for each of the columns. -/
def flagRow (columns : List String) (annotations : List Annotation) (idx : Nat) (row : Row) : Row :=
  columns.foldl (fun r col =>
    r.set (flagColumn col) (.bool (annotations.any (fun a => a.rowIndex == idx && a.column == col)))) row

/-- `MADOutliers.execute`. -/
def madOutliers (columns : List String) (threshold : Float) (table : ObservationTable) : Except Raised Output :=
  match columns.mapM (annotateColumn threshold table.rows) with
  | .error e => .error e
  | .ok reported =>
    let annotations := (reported.map Prod.fst).flatten
    .ok { observations :=
            { table with
              columns := columns.foldl (fun cs col => if flagColumn col ∈ cs then cs else cs ++ [flagColumn col])
                table.columns
              rows := table.rows.zipIdx.map (fun (row, idx) => flagRow columns annotations idx row) },
          warnings := (reported.map Prod.snd).flatten, rowAnnotations := annotations }

/-- The name a column is mapped to, if it stays. -/
def mappedName (mapping : Dict String String) (includeUnmapped : Bool) (col : String) : Option String :=
  match mapping.get? col with
  | some name => some name
  | Option.none => if includeUnmapped then some col else Option.none

/-- `FieldMapper.execute`. -/
def fieldMapper (mapping : Dict String String) (includeUnmapped : Bool) (table : ObservationTable) : Output where
  observations :=
    { table with
      columns := table.columns.filterMap (mappedName mapping includeUnmapped)
      rows := table.rows.map (fun row => table.columns.foldl (fun r col =>
        match mappedName mapping includeUnmapped col with
        | some name => r.set name (row.getD col .none)
        | Option.none => r) ∅) }

/-! ## Time series -/

/-- A value in a data frame. -/
inductive FrameValue where
  | timestamp (isoformat : String)
  | na
  | value (cell : Cell)

/-- A data frame that pandas returns, and for each of its rows the position of the row whose values it repeats, where it
repeats one. -/
structure Frame where
  columns : List String
  rows : List (List FrameValue × Option Nat)

/-- What pandas makes of a list of records: parsed, sorted and indexed by the column of the time, then brought to the
frequency, without the rows that are empty. -/
structure Pandas where
  resample : List Row → (timeColumn frequency aggregation : String) → Option (List String) → Except String Frame
  align : List Row → (timeColumn frequency method : String) → Option (List String) → Except String Frame

/-- A value of the frame as it goes into the record. -/
def FrameValue.cell : FrameValue → Cell
  | .timestamp isoformat => .str isoformat
  | .na => .none
  | .value cell => cell

/-- The loop over the rows of the frame. -/
def Frame.records (frame : Frame) : List Row :=
  frame.rows.map (fun row => Dict.ofList (frame.columns.zip (row.1.map FrameValue.cell)))

/-- `time_column in df.columns`. -/
def hasColumn (rows : List Row) (col : String) : Bool := rows.any (fun row => (row.get? col).isSome)

/-- The table of a frame, with the locations as they were. -/
def fromFrame (table : ObservationTable) : Except String Frame → Except Raised Output
  | .error message => .error (.pandas message)
  | .ok frame => .ok { observations := { table with columns := frame.columns, rows := frame.records } }

def aggMethods : List String := ["mean", "sum", "max", "min", "median", "count", "std", "var"]

/-- `Resampler.execute`. -/
def resampler (pandas : Pandas) (timeColumn frequency aggregation : String) (valueColumns : Option (List String))
    (table : ObservationTable) : Except Raised Output :=
  if aggregation ∉ aggMethods then
    .ok { observations := table, warnings := ["unsupported_aggregation:" ++ aggregation] }
  else if table.rows = [] then .ok { observations := table }
  else if !hasColumn table.rows timeColumn then
    .ok { observations := table, warnings := ["column_not_found:" ++ timeColumn] }
  else fromFrame table (pandas.resample table.rows timeColumn frequency aggregation valueColumns)

def freqAliases : List (String × String) :=
  [("1s", "1s"), ("s", "1s"), ("1min", "1min"), ("min", "1min"), ("5min", "5min"), ("1h", "1h"), ("h", "1h"),
   ("1D", "1D"), ("D", "1D"), ("1d", "1D"), ("d", "1D")]

/-- `TimeAlignment.execute`. -/
def timeAlignment (pandas : Pandas) (timeColumn frequency method : String) (valueColumns : Option (List String))
    (table : ObservationTable) : Except Raised Output :=
  if table.rows = [] then .ok { observations := table }
  else if !hasColumn table.rows timeColumn then
    .ok { observations := table, warnings := ["column_not_found:" ++ timeColumn] }
  else
    let freq := (freqAliases.lookup frequency).getD frequency
    fromFrame table (pandas.align table.rows timeColumn freq method valueColumns)

/-! ## One for all -/

/-- A component of a pipeline, with its parameters. -/
inductive Component where
  | missingValues (strategy : String) (columns : Option (List String)) (fillValue : Cell)
  | unitConverter (conversions : List Conversion)
  | madOutliers (columns : List String) (threshold : Float)
  | fieldMapper (mapping : Dict String String) (includeUnmapped : Bool)
  | resampler (timeColumn frequency aggregation : String) (valueColumns : Option (List String))
  | timeAlignment (timeColumn frequency method : String) (valueColumns : Option (List String))

/-- `execute` of a component. -/
def execute (pandas : Pandas) (table : ObservationTable) : Component → Except Raised Output
  | .missingValues strategy columns fillValue => .ok (missingValues strategy columns fillValue table)
  | .unitConverter conversions => unitConverter conversions table
  | .madOutliers columns threshold => madOutliers columns threshold table
  | .fieldMapper mapping includeUnmapped => .ok (fieldMapper mapping includeUnmapped table)
  | .resampler timeColumn frequency aggregation valueColumns =>
    resampler pandas timeColumn frequency aggregation valueColumns table
  | .timeAlignment timeColumn frequency method valueColumns =>
    timeAlignment pandas timeColumn frequency method valueColumns table

end Irip.Transform
