import Irip.Base.Dict
import Irip.Converters.Text

/-!
# `Converters.Tga` — files of a simultaneous thermal analyser

`parse_tga`, from the text of a file on. What is logged is left out.
-/

namespace Irip.Converters.Tga

/-! ## Lines -/

def isColon (c : Char) : Bool := c = ':' || c = '：'

/-- `_parse_header_line`: the key ends at the first colon behind its first character. -/
def parseHeaderLine : Line → Option (String × String)
  | [] => none
  | c :: cs => match cs.dropWhile (fun d => !isColon d) with
    | [] => none
    | _ :: rest =>
      let key := trim (c :: cs.takeWhile (fun d => !isColon d))
      if key = [] then none else some (String.ofList key, String.ofList (trim rest))

/-- `^-{10,}$`. -/
def isSeparator (line : Line) : Bool := decide (10 ≤ line.length) && line.all (· = '-')

/-- `_DATA_LINE_PATTERN`, on a stripped line: at least two numbers, the first of them without a plus sign. -/
def isDataLine (line : Line) : Bool :=
  match words line with
  | first :: second :: rest => isNumber (dropMinus first) && (second :: rest).all (fun w => isNumber (dropSign w))
  | _ => false

def parseDataLine (line : Line) : Option (List FloatNum) :=
  if isDataLine (trim line) then (words (trim line)).mapM (fun w => pyFloat? (String.ofList w)) else none

/-! ## Header -/

/-- What the first pass has found. -/
structure Scan where
  headerParams : Dict String String := ∅
  separatorIndices : List Nat := []
  colLine : Option Line := none
  unitLine : Option Line := none

/-- A line of the first pass, with its index. -/
def scanLine (s : Scan) (entry : Line × Nat) : Scan :=
  let stripped := trim entry.1
  if stripped = [] then s
  else if isSeparator stripped then { s with separatorIndices := s.separatorIndices ++ [entry.2] }
  else if isDataLine stripped then s
  else match parseHeaderLine stripped with
    | some (key, value) => { s with headerParams := s.headerParams.set key value }
    | none =>
      if s.separatorIndices = [] then s
      else if s.colLine = none then { s with colLine := some stripped }
      else if s.unitLine = none then { s with unitLine := some stripped }
      else s

/-- The first pass. -/
def scan (lines : List Line) : Scan := lines.zipIdx.foldl scanLine {}

def buildColumnNames (colLine unitLine : Line) : List String :=
  (words colLine).mapIdx (fun i name => match (words unitLine)[i]? with
    | some unit => String.ofList (name ++ " (".toList ++ unit ++ ")".toList)
    | none => String.ofList name)

def defaultColumns : List String :=
  ["温度 (℃)", "时间 (min)", "DSC (mW/mg)", "TG (%)", "DTG (%/min)", "灵敏度 (μV/mW)"]

def columnNames (s : Scan) : List String :=
  match s.colLine, s.unitLine with
  | some colLine, some unitLine => buildColumnNames colLine unitLine
  | _, _ => defaultColumns

/-! ## Parsing -/

/-- The rows of the lines behind the last separator, as long as there are columns. -/
def dataRows (columns : Nat) (lines : List Line) : List (List FloatNum) :=
  lines.filterMap (fun line => match parseDataLine line with
    | some result => if 2 ≤ result.length then some (result.take columns) else none
    | none => none)

/-- The index of the last separator. -/
def dataStart (s : Scan) : Nat := s.separatorIndices.getLastD 0

def basename (path : String) : String := String.ofList (path.toList.rtakeWhile (· ≠ '/'))

/-- The metadata: `header` gives the value of a key of the header. -/
def metadata (path : String) (header : String → String) (dataPoints : Nat) : List (String × Value) :=
  [("filename", .str (basename path)), ("instrument", .str (header "仪器")), ("measurement_mode", .str (header "测量模式")),
   ("sample_name", .str (header "样品名称")), ("sample_mass", .str (header "样品质量")), ("atmosphere", .str (header "气氛")),
   ("temperature_range", .str (header "范围")), ("start_time", .str (header "日期 / 时间")),
   ("end_time", .str (header "结束日期 / 时间")), ("crucible_type", .str (header "坩埚类型")),
   ("data_points", .int dataPoints)]

/-- What is returned. -/
def parsed (path : String) (header : String → String) (columns : List String) (rows : List (List FloatNum)) : Parsed :=
  { metadata := metadata path header rows.length
    points := []
    series := [{ name := "热分析曲线", columns := columns, rows := rows.map (·.map .float) }] }

def parseTga (path content : String) : Except Failure Parsed :=
  let lines := splitlines content.toList
  let s := scan lines
  if s.headerParams.entries = [] then
    .error (.own .invalidFormat "未找到任何标头信息，可能不是 NETZSCH STA 文件")
  else
    let columns := columnNames s
    let rows := dataRows columns.length (lines.drop (dataStart s + 1))
    if rows = [] then .error (.own .noData s!"文件 {path} 中未找到有效数据行")
    else .ok (parsed path (fun key => s.headerParams.getD key "") columns rows)

theorem parseTga_eq {path content : String} {s : Scan} {columns : List String} {rows : List (List FloatNum)}
    (hs : scan (splitlines content.toList) = s) (hcolumns : columnNames s = columns)
    (hrows : dataRows columns.length ((splitlines content.toList).drop (dataStart s + 1)) = rows) :
    parseTga path content =
      if s.headerParams.entries = [] then .error (.own .invalidFormat "未找到任何标头信息，可能不是 NETZSCH STA 文件")
      else if rows = [] then .error (.own .noData s!"文件 {path} 中未找到有效数据行")
      else .ok (parsed path (fun key => s.headerParams.getD key "") columns rows) := by
  subst hs hcolumns hrows
  rfl

end Irip.Converters.Tga
