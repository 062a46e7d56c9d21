import Mathlib.Data.List.ReduceOption
import Mathlib.Data.String.Basic
import Irip.Base.Dict
import Irip.Base.Eval
import Irip.Common.Numeral
import Irip.Converters.Text

/-!
# `Converters.Xrd` — files of a diffractometer

`parse_ras_raw`, from the text of a file on. What is logged is left out, and with it every comparison whose outcome is only
logged; that such a comparison may raise is kept. `quote` is Python's `repr` of a text.

`int(·)` refuses texts with too many digits; nothing else is refused when a result is built. `result` is what is built then,
written without the errors.
-/

namespace Irip.Converters.Xrd

/-! ## Values -/

/-- `^-?\d+$`. -/
def isInteger (cs : List Char) : Bool := isDigits (dropMinus cs)

/-- `^-?\d+\.\d+$`. -/
def isFraction (cs : List Char) : Bool :=
  let cs := dropMinus cs
  !(cs.takeWhile isDec).isEmpty && (match cs.dropWhile isDec with
    | '.' :: part => isDigits part
    | _ => false)

/-- `int(·)` of digits, of which there may be too many. -/
def readDigits (digits : List Char) : Except FloatError Nat :=
  if maxIntDigits < digits.length then .error .valueError else .ok (Nat.ofDigitChars 10 (asciiDecimals digits) 0)

/-- `int(·)` of digits with a minus sign in front, or without. -/
def readInteger (cs : List Char) : Except FloatError Int :=
  (readDigits (dropMinus cs)).map (fun n => if cs.head? = some '-' then -(n : Int) else n)

def convertValue (raw : String) : Except FloatError Value :=
  if raw = "" then .ok .null
  else if isInteger raw.toList then (readInteger raw.toList).map .int
  else if isFraction raw.toList then (floatOfText raw).map .float
  else .ok (.str raw)

/-! ## Lines -/

/-- `^\*(\S+)\s+"(.*)"$`: the key ends at the first blank, the value at the last quotation mark. -/
def parseStarLine : Line → Option (String × String)
  | '*' :: cs =>
    let key := cs.takeWhile (fun c => !isSpace c)
    let rest := cs.dropWhile (fun c => !isSpace c)
    if key = [] ∨ rest = [] then none
    else match rest.dropWhile isSpace with
      | '"' :: value =>
        if value.getLast? = some '"' then some (String.ofList key, String.ofList value.dropLast) else none
      | _ => none
  | _ => none

/-- `^#([^=]+)=(.*)$`. -/
def parseHashLine : Line → Option (String × String)
  | '#' :: cs =>
    let key := cs.takeWhile (· ≠ '=')
    match cs.dropWhile (· ≠ '=') with
    | _ :: value => if key = [] then none else some (String.ofList key, String.ofList value)
    | [] => none
  | _ => none

/-- `_XRD_DATA_LINE_PATTERN`, on a stripped line: two numbers without signs and exponents. -/
def isXrdDataLine (line : Line) : Bool :=
  match words line with
  | [x, y] => isPlain x && isPlain y
  | _ => false

/-- `float(·)` of both words of a line. -/
def twoFloats (line : Line) : Option (FloatNum × FloatNum) :=
  match words line with
  | [x, y] => (pyFloat? (String.ofList x)).bind (fun x => (pyFloat? (String.ofList y)).map (fun y => (x, y)))
  | _ => none

def parseXrdDataLine (line : Line) : Except Failure (Option (FloatNum × FloatNum)) :=
  if isXrdDataLine line then match twoFloats line with
    | some point => .ok (some point)
    | none => .error (.own .xrdDataParse s!"XRD 数据行解析失败: {String.ofList line}")
  else .ok none

/-- What the pass over the lines has found. -/
structure Scan where
  starParams : Dict String String := ∅
  hashParams : Dict String String := ∅
  xrdData : List (FloatNum × FloatNum) := []

/-- A line of the pass. -/
def scanLine (s : Scan) (rawLine : Line) : Except Failure Scan :=
  let line := trim rawLine
  if line = [] then .ok s
  else match parseStarLine line with
    | some (key, value) => .ok { s with starParams := s.starParams.set key value }
    | none => match parseHashLine line with
      | some (key, value) => .ok { s with hashParams := s.hashParams.set key value }
      | none => (parseXrdDataLine line).map (fun point => { s with xrdData := s.xrdData ++ point.toList })

def scan (lines : List Line) : Except Failure Scan := lines.foldlM scanLine {}

/-! ## Keys -/

/-- The base and the digits of a key that ends with `-` and digits. -/
def indexSuffix (key : String) : Option (String × List Char) :=
  match (key.toList.rdropWhile isDec).reverse with
  | '-' :: base =>
    if key.toList.rtakeWhile isDec = [] then none else some (String.ofList base.reverse, key.toList.rtakeWhile isDec)
  | _ => none

/-- `_get_group_prefix`: the part before the last underscore, unless there is none or it is empty. -/
def groupPrefix (base : String) : String :=
  match (base.toList.rdropWhile (· ≠ '_')).dropLast with
  | [] => base
  | front => String.ofList front

/-- `key.startswith("FILE_")`. -/
def isFileKey (key : String) : Bool := "FILE_".toList.isPrefixOf key.toList

def unitMapping : List (String × String) :=
  [("MEAS_COND_XG_VOLTAGE", "HW_XG_VOLTAGE_UNIT"), ("MEAS_COND_XG_CURRENT", "HW_XG_CURRENT_UNIT"),
   ("HW_XG_WAVE_LENGTH_ALPHA1", "HW_XG_WAVE_LENGTH_UNIT"), ("HW_XG_WAVE_LENGTH_ALPHA2", "HW_XG_WAVE_LENGTH_UNIT"),
   ("HW_XG_WAVE_LENGTH_BETA", "HW_XG_WAVE_LENGTH_UNIT"), ("MEAS_SCAN_SPEED", "MEAS_SCAN_SPEED_UNIT"),
   ("MEAS_SCAN_START", "MEAS_SCAN_UNIT_X"), ("MEAS_SCAN_STOP", "MEAS_SCAN_UNIT_X"),
   ("MEAS_SCAN_STEP", "MEAS_SCAN_UNIT_X"), ("MEAS_SCAN_RESOLUTION_X", "MEAS_SCAN_UNIT_X")]

/-- `UNIT_MAPPING[field_name]`. -/
def mappedUnit (fieldName : String) : Option String := (unitMapping.find? (fun m => m.1 = fieldName)).map Prod.snd

/-- `_lookup_unit`: the unit of a field. -/
def lookupUnit (fieldName : String) (starParams : Dict String String) : String :=
  match (mappedUnit fieldName).bind starParams.get? with
  | some unit => unit
  | none => starParams.getD (fieldName ++ "_UNIT") ""

def collectUnitSourceFields (starParams : Dict String String) : List String :=
  (unitMapping.map Prod.snd).filter (· ∈ starParams.keys) ++
    (starParams.keys.map (· ++ "_UNIT")).filter (· ∈ starParams.keys)

/-- The texts of the numbered fields, by base and number. -/
abbrev Numbered := Dict String (Dict Nat String)

/-- A key of the loop over the numbered fields. -/
def addNumbered (numbered : Numbered) (entry : String × String) : Except FloatError Numbered :=
  if isFileKey entry.1 then .ok numbered
  else match indexSuffix entry.1 with
    | none => .ok numbered
    | some (base, digits) => (readDigits digits).map (fun index =>
      numbered.set base ((numbered.getD base ∅).set index entry.2))

def numberedFields (entries : List (String × String)) : Except FloatError Numbered := entries.foldlM addNumbered ∅

/-! ## Series -/

/-- `MEAS_COND_AXIS_SUBFIELDS`. -/
def axisSubfields : List String :=
  ["NAME", "NAME_INTERNAL", "OFFSET", "POSITION", "RESOLUTION", "STATE", "UNIT", "SPEED", "SPEED_UNIT",
   "SPEED_RESOLUTION"]

def axisPrefix : String := "MEAS_COND_AXIS_"

def isAxisBase (base : String) : Bool := axisPrefix.toList.isPrefixOf base.toList

/-- A series before its texts are converted. -/
structure RawSeries where
  name : String
  columns : List String
  rows : List (Nat × List (Option String))

/-- The numbers under which one of the fields has a text, in their order. -/
def indices (numbered : Numbered) (bases : List String) : List Nat :=
  ((bases.flatMap (fun base => (numbered.getD base ∅).keys)).dedup).insertionSort (· ≤ ·)

/-- One row for each number, with a cell for each field. -/
def rawRows (numbered : Numbered) (bases : List String) : List (Nat × List (Option String)) :=
  (indices numbered bases).map (fun i => (i, bases.map (fun base => (numbered.getD base ∅).get? i)))

/-- `_build_meas_cond_axis_series`. -/
def axisSeries (numbered : Numbered) : Option RawSeries :=
  let bases := axisSubfields.map (axisPrefix ++ ·)
  if indices numbered bases = [] then none
  else some { name := "MEAS_COND_AXIS", columns := "index" :: axisSubfields, rows := rawRows numbered bases }

/-- The series of a group: the only field, or the fields side by side. -/
def groupSeries (numbered : Numbered) (name : String) (bases : List String) : RawSeries :=
  match bases with
  | [base] => { name := base, columns := ["index", "value"], rows := rawRows numbered [base] }
  | _ => { name := name, columns := "index" :: bases, rows := rawRows numbered bases }

/-- The fields of a group, sorted. -/
def groupBases (numbered : Numbered) (name : String) : List String :=
  (numbered.keys.filter (fun base => !isAxisBase base && groupPrefix base = name)).insertionSort (· ≤ ·)

/-- The groups of the other fields, sorted by name. -/
def groupNames (numbered : Numbered) : List String :=
  (((numbered.keys.filter (fun base => !isAxisBase base)).map groupPrefix).dedup).insertionSort (· ≤ ·)

/-- `_build_other_numbered_series`. -/
def otherSeries (numbered : Numbered) : List RawSeries :=
  (groupNames numbered).map (fun name => groupSeries numbered name (groupBases numbered name))

def rawSeries (numbered : Numbered) : List RawSeries := (axisSeries numbered).toList ++ otherSeries numbered

def convertCell : Option String → Except FloatError Value
  | none => .ok .null
  | some raw => convertValue raw

def convertRow (row : Nat × List (Option String)) : Except FloatError (List Value) := do
  let values ← row.2.mapM convertCell
  return .int row.1 :: values

def convertSeries (s : RawSeries) : Except FloatError Series := do
  let rows ← s.rows.mapM convertRow
  return { name := s.name, columns := s.columns, rows := rows }

/-- `_build_xrd_series`. -/
def xrdSeries (s : Scan) : Series :=
  let axisX := s.starParams.getD "MEAS_SCAN_AXIS_X" ""
  let unitX := s.starParams.getD "MEAS_SCAN_UNIT_X" ""
  let declared := s.hashParams.getD "Intensity_unit" ""
  let intensityUnit := if declared = "" then s.starParams.getD "MEAS_SCAN_UNIT_Y" "" else declared
  { name := "XRD衍射谱"
    columns := [if unitX = "" then axisX else s!"{axisX} ({unitX})",
      if intensityUnit = "" then "Intensity" else s!"Intensity ({intensityUnit})"]
    rows := s.xrdData.map (fun point => [.float point.1, .float point.2]) }

/-! ## Parsing -/

def basename (path : String) : String := String.ofList (path.toList.rtakeWhile (· ≠ '/'))

/-- A key that gives a point: no key of the file, not numbered, and no unit. -/
def isPointKey (starParams : Dict String String) (key : String) : Bool :=
  !isFileKey key && (indexSuffix key).isNone && decide (key ∉ collectUnitSourceFields starParams)

def convertEntry (entry : String × String) : Except FloatError (String × Value) := do
  let value ← convertValue entry.2
  return (entry.1, value)

/-- The metadata, the points and the series. -/
def build (path : String) (s : Scan) : Except FloatError Parsed := do
  let metadata ← (s.starParams.entries.filter (fun e => isFileKey e.1)).mapM convertEntry
  let numbered ← numberedFields s.starParams.entries
  let starPoints ← (s.starParams.entries.filter (fun e => isPointKey s.starParams e.1)).mapM convertEntry
  let hashPoints ← s.hashParams.entries.mapM convertEntry
  let series ← (rawSeries numbered).mapM convertSeries
  return {
    metadata := metadata ++ [("filename", .str (basename path))]
    points := starPoints.map (fun p => { name := p.1, value := p.2, unit := lookupUnit p.1 s.starParams }) ++
      hashPoints.map (fun p => { name := p.1, value := p.2, unit := "" })
    series := series ++ [xrdSeries s] }

/-- What `x - value` raises for a float `x`, unless the value is false. -/
def difference : Value → Except FloatError Unit
  | .int n => if n = 0 then .ok () else (floatOfInt n).map (fun _ => ())
  | .str _ => .error .typeError
  | _ => .ok ()

/-- The values that are compared with the data. -/
def declaredValue (s : Scan) (key : String) : Except FloatError Value := convertValue (s.starParams.getD key "")

/-- The comparisons of `validate_result` that may raise. -/
def compareScan (s : Scan) : Except FloatError Unit := do
  let _ ← declaredValue s "MEAS_DATA_COUNT"
  let scanStart ← declaredValue s "MEAS_SCAN_START"
  let scanStop ← declaredValue s "MEAS_SCAN_STOP"
  let scanStep ← declaredValue s "MEAS_SCAN_STEP"
  if s.xrdData = [] then return
  difference scanStart
  difference scanStop
  if s.starParams.getD "MEAS_SCAN_UNEQUALY_SPACED" "False" = "False" ∧ 2 ≤ s.xrdData.length then difference scanStep

/-- `_check_no_nan_inf`. -/
def isNanInf : Value → Bool
  | .float x => !x.isFinite
  | _ => false

/-- `validate_result`, with the conversions of its parameters. -/
def validateResult (s : Scan) (r : Parsed) : Except Failure Unit := do
  (compareScan s).mapError .python
  if s.xrdData ≠ [] ∧ r.values.any isNanInf then
    .error (.own .invalidRasRawStructure "解析结果中存在 NaN 或 Infinity，无法序列化为合法 JSON")

/-- The format that is supported. -/
def supported (s : Scan) : Bool :=
  s.starParams.getD "FILE_TYPE" "" = "RAS_RAW" && s.starParams.getD "FILE_SYSTEM_NAME" "" = "SmartLabXE"

def parseRasRaw (quote : String → String) (path content : String) : Except Failure Parsed := do
  let s ← scan (splitlines content.toList)
  if !supported s then
    let fileType := quote (s.starParams.getD "FILE_TYPE" "")
    let fileSystem := quote (s.starParams.getD "FILE_SYSTEM_NAME" "")
    .error (.own .unsupportedFileFormat
      s!"不支持的文件格式: FILE_TYPE={fileType}, FILE_SYSTEM_NAME={fileSystem}，仅支持 RAS_RAW / SmartLabXE")
  let r ← (build path s).mapError .python
  validateResult s r
  return r

open Evaluation (bind_ok_iff mapM_guarded foldlM_guarded)

/-! ## Values -/

/-- An integer with too many digits. -/
def Overlong (raw : String) : Prop := isInteger raw.toList = true ∧ maxIntDigits < (dropMinus raw.toList).length

/-- The number of a list of digits. -/
def indexOf (digits : List Char) : Nat := Nat.ofDigitChars 10 (asciiDecimals digits) 0

/-- The value of a text. -/
def valueOf (raw : String) : Value :=
  if raw = "" then .null
  else if isInteger raw.toList then
    .int (if raw.toList.head? = some '-' then -(indexOf (dropMinus raw.toList) : Int) else indexOf (dropMinus raw.toList))
  else if isFraction raw.toList then .float ((pyFloat? raw).getD .nan)
  else .str raw

theorem readDigits_eq (digits : List Char) :
    readDigits digits = if maxIntDigits < digits.length then .error .valueError else .ok (indexOf digits) := rfl

theorem asciiDecimals_digits {cs : List Char} (h : ∀ c ∈ cs, isDec c = true) :
    ∃ ds : List (Fin 10), asciiDecimals cs = ds.map digitChr ∧ ds.length = cs.length := by
  induction cs with
  | nil => exact ⟨[], rfl, rfl⟩
  | cons c cs ih =>
    rw [List.forall_mem_cons] at h
    obtain ⟨ds, hds, hlength⟩ := ih h.2
    obtain ⟨d, hd⟩ := Option.isSome_iff_exists.mp h.1
    have hlt : d < 10 := by
      obtain ⟨z, hz, rfl⟩ := Option.map_eq_some_iff.mp hd
      have hrange := List.find?_some hz
      simp only [Bool.and_eq_true, decide_eq_true_eq] at hrange
      omega
    refine ⟨⟨d, hlt⟩ :: ds, ?_, by rw [List.length_cons, List.length_cons, hlength]⟩
    unfold asciiDecimals at hds ⊢
    rw [List.map_cons, hd, hds]
    rfl

theorem isSpace_of_isDec {c : Char} (h : isDec c = true) : isSpace c = false := by
  have hall : ∀ z ∈ decimalZeros, ∀ k < 10, isSpace (Char.ofNat (z + k)) = false := by decide +kernel
  obtain ⟨d, hd⟩ := Option.isSome_iff_exists.mp h
  obtain ⟨z, hz, rfl⟩ := Option.map_eq_some_iff.mp hd
  have hrange := List.find?_some hz
  simp only [Bool.and_eq_true, decide_eq_true_eq] at hrange
  have hc := hall z (List.mem_of_find?_eq_some hz) (c.toNat - z) (by omega)
  rwa [Nat.add_sub_of_le hrange.1, Char.ofNat_toNat] at hc

theorem isFraction_split {cs : List Char} (h : isFraction cs = true) : ∃ whole part,
    dropMinus cs = whole ++ '.' :: part ∧ whole ≠ [] ∧ (∀ c ∈ whole, isDec c = true) ∧ ∀ c ∈ part, isDec c = true := by
  unfold isFraction at h
  dsimp only at h
  obtain ⟨hwhole, hrest⟩ := Bool.and_eq_true_iff.mp h
  split at hrest
  · next part heq =>
      refine ⟨(dropMinus cs).takeWhile isDec, part, ?_, by simpa using hwhole, fun c hc => List.mem_takeWhile_imp hc, ?_⟩
      · rw [← heq, List.takeWhile_append_dropWhile]
      · exact List.all_eq_true.mp (Bool.and_eq_true_iff.mp hrest).2
  · cases hrest

theorem floatOfText_fraction {raw : String} (h : isFraction raw.toList = true) :
    floatOfText raw = .ok ((pyFloat? raw).getD .nan) := by
  obtain ⟨whole, part, hsplit, hne, hwhole, hpart⟩ := isFraction_split h
  obtain ⟨ds, hds, hlength⟩ := asciiDecimals_digits hwhole
  obtain ⟨es, hes, _⟩ := asciiDecimals_digits hpart
  obtain ⟨sign, hsign⟩ : ∃ sign : Sign, raw.toList = sign.chars ++ (whole ++ '.' :: part) ∧ sign ≠ .plus := by
    unfold dropMinus at hsplit
    split at hsplit
    · next cs heq =>
        rw [heq, hsplit]
        exact ⟨.minus, rfl, by decide⟩
    · next cs =>
        rw [hsplit]
        exact ⟨.none, rfl, by decide⟩
  let n : Numeral := ⟨sign, ds, some es, none, fun h => hne (List.length_eq_zero_iff.mp (by rw [← hlength, h]; rfl))⟩
  have hplain : ∀ c ∈ raw.toList, isSpace c = false := by
    rw [hsign.1]
    intro c hc
    rcases List.mem_append.mp hc with hc | hc
    · have hchars : ∀ c ∈ sign.chars, isSpace c = false := by
        cases sign <;> exact List.all_iff_forall_prop.mp (by decide)
      exact hchars c hc
    · rcases List.mem_append.mp hc with hc | hc
      · exact isSpace_of_isDec (hwhole c hc)
      · rcases List.mem_cons.mp hc with rfl | hc
        · rfl
        · exact isSpace_of_isDec (hpart c hc)
  have htext : asciiDecimals raw.toList = n.text := by
    have hpoint : asciiDecimals ['.'] = ['.'] := by decide +kernel
    have hchars : asciiDecimals sign.chars = sign.chars := by
      cases sign <;> decide +kernel
    rw [hsign.1, List.append_cons]
    unfold asciiDecimals at hds hes hpoint hchars ⊢
    rw [List.map_append, List.map_append, List.map_append, hchars, hds, hes, hpoint]
    show _ = sign.chars ++ (ds.map digitChr ++ (('.' :: es.map digitChr) ++ []))
    simp
  have hstrip : strip raw = raw := by
    have htrim : Words.trim isSpace raw.toList = raw.toList :=
      Words.trim_eq_self (fun c hc => hplain c (List.mem_of_mem_head? hc)) fun c hc => hplain c (List.mem_of_mem_getLast? hc)
    unfold strip
    exact (congrArg String.ofList htrim).trans (String.ofList_toList)
  have hfloat : pyFloat? raw = some (binary64.ofRat n.value) := by
    unfold pyFloat?
    rw [hstrip, htext, n.parseFloat_text]
  unfold floatOfText
  rw [hfloat]
  rfl

instance decidableOverlong (raw : String) : Decidable (Overlong raw) := inferInstanceAs (Decidable (_ ∧ _))

theorem convertValue_eq (raw : String) :
    convertValue raw = if Overlong raw then .error .valueError else .ok (valueOf raw) := by
  unfold convertValue valueOf
  by_cases hempty : raw = ""
  · subst hempty
    rw [if_pos rfl, if_pos rfl, if_neg (fun h => by cases h.1)]
  · rw [if_neg hempty, if_neg hempty]
    by_cases hinteger : isInteger raw.toList = true
    · rw [if_pos hinteger, if_pos hinteger]
      unfold readInteger
      rw [readDigits_eq]
      by_cases hlong : maxIntDigits < (dropMinus raw.toList).length
      · rw [if_pos hlong, if_pos ⟨hinteger, hlong⟩]
        rfl
      · rw [if_neg hlong, if_neg (fun h => hlong h.2)]
        rfl
    · have hlong : ¬ Overlong raw := fun h => hinteger h.1
      rw [if_neg hinteger, if_neg hinteger, if_neg hlong]
      by_cases hfraction : isFraction raw.toList = true
      · rw [if_pos hfraction, if_pos hfraction, floatOfText_fraction hfraction]
        rfl
      · rw [if_neg hfraction, if_neg hfraction]

theorem convertValue_ok_iff {raw : String} {v : Value} : convertValue raw = .ok v ↔ ¬ Overlong raw ∧ valueOf raw = v := by
  rw [convertValue_eq]
  split
  · next hlong =>
      constructor
      · intro h
        cases h
      · exact fun h => absurd hlong h.1
  · next hlong => exact ⟨fun h => ⟨hlong, Except.ok.inj h⟩, fun h => congrArg _ h.2⟩

/-! ## Fields -/

/-- A key of the loop over the numbered fields, where its number can be read. -/
def addNumberedOf (numbered : Numbered) (entry : String × String) : Numbered :=
  if isFileKey entry.1 then numbered
  else match indexSuffix entry.1 with
    | none => numbered
    | some (base, digits) => numbered.set base ((numbered.getD base ∅).set (indexOf digits) entry.2)

def numberedOf (entries : List (String × String)) : Numbered := entries.foldl addNumberedOf ∅

/-- The number of a key can be read, if the key has one. -/
def ShortIndex (key : String) : Prop :=
  isFileKey key = false → ∀ base digits, indexSuffix key = some (base, digits) → digits.length ≤ maxIntDigits

theorem addNumbered_ok_iff (numbered : Numbered) (entry : String × String) (numbered' : Numbered) :
    addNumbered numbered entry = .ok numbered' ↔ ShortIndex entry.1 ∧ addNumberedOf numbered entry = numbered' := by
  unfold addNumbered addNumberedOf ShortIndex
  cases hfile : isFileKey entry.1 with
  | true => exact ⟨fun h => ⟨fun h' => (by cases h'), Except.ok.inj h⟩, fun h => congrArg _ h.2⟩
  | false =>
    rw [if_neg (by decide), if_neg (by decide)]
    cases hsuffix : indexSuffix entry.1 with
    | none => exact ⟨fun h => ⟨fun _ _ _ h' => (by cases h'), Except.ok.inj h⟩, fun h => congrArg _ h.2⟩
    | some suffix =>
      obtain ⟨base, digits⟩ := suffix
      dsimp only
      rw [readDigits_eq]
      by_cases hlong : maxIntDigits < digits.length
      · rw [if_pos hlong]
        constructor
        · intro h
          cases h
        · intro h
          exact absurd (h.1 rfl base digits rfl) (Nat.not_le_of_lt hlong)
      · rw [if_neg hlong]
        constructor
        · intro h
          refine ⟨fun _ base' digits' heq => ?_, Except.ok.inj h⟩
          obtain ⟨_, rfl⟩ := Prod.mk.inj (Option.some.inj heq)
          exact Nat.le_of_not_lt hlong
        · exact fun h => congrArg Except.ok h.2

theorem numberedFields_ok_iff {entries : List (String × String)} {numbered : Numbered} :
    numberedFields entries = .ok numbered ↔ (∀ e ∈ entries, ShortIndex e.1) ∧ numberedOf entries = numbered :=
  foldlM_guarded addNumbered_ok_iff

/-! ## Result -/

def cellValue : Option String → Value
  | none => .null
  | some raw => valueOf raw

def rowOf (row : Nat × List (Option String)) : List Value := .int row.1 :: row.2.map cellValue

def seriesOf (s : RawSeries) : Series := { name := s.name, columns := s.columns, rows := s.rows.map rowOf }

/-- The texts of a series. -/
def RawSeries.texts (s : RawSeries) : List String := s.rows.flatMap (fun row => row.2.reduceOption)

def fileEntries (s : Scan) : List (String × String) := s.starParams.entries.filter (fun e => isFileKey e.1)

def pointEntries (s : Scan) : List (String × String) := s.starParams.entries.filter (fun e => isPointKey s.starParams e.1)

/-- What is built. -/
def result (path : String) (s : Scan) : Parsed where
  metadata := (fileEntries s).map (fun e => (e.1, valueOf e.2)) ++ [("filename", .str (basename path))]
  points := (pointEntries s).map (fun e => { name := e.1, value := valueOf e.2, unit := lookupUnit e.1 s.starParams }) ++
    s.hashParams.entries.map (fun e => { name := e.1, value := valueOf e.2, unit := "" })
  series := (rawSeries (numberedOf s.starParams.entries)).map seriesOf ++ [xrdSeries s]

/-- The texts that are converted. -/
def converted (s : Scan) : List String :=
  ((fileEntries s ++ pointEntries s) ++ s.hashParams.entries).map Prod.snd ++
    (rawSeries (numberedOf s.starParams.entries)).flatMap RawSeries.texts

/-- No number has too many digits, neither in a key nor in a text that is converted. -/
structure Readable (s : Scan) : Prop where
  index : ∀ e ∈ s.starParams.entries, ShortIndex e.1
  value : ∀ raw ∈ converted s, ¬ Overlong raw

theorem convertEntry_ok_iff (e : String × String) (m : String × Value) :
    convertEntry e = .ok m ↔ ¬ Overlong e.2 ∧ (e.1, valueOf e.2) = m := by
  unfold convertEntry
  rw [bind_ok_iff]
  constructor
  · rintro ⟨v, hv, hm⟩
    obtain ⟨hshort, rfl⟩ := convertValue_ok_iff.mp hv
    exact ⟨hshort, Except.ok.inj hm⟩
  · rintro ⟨hshort, rfl⟩
    exact ⟨valueOf e.2, convertValue_ok_iff.mpr ⟨hshort, rfl⟩, rfl⟩

theorem convertCell_ok_iff (cell : Option String) (v : Value) :
    convertCell cell = .ok v ↔ (∀ raw ∈ cell, ¬ Overlong raw) ∧ cellValue cell = v := by
  cases cell with
  | none => exact ⟨fun h => ⟨fun _ h' => (by cases h'), Except.ok.inj h⟩, fun h => congrArg _ h.2⟩
  | some raw =>
    show convertValue raw = .ok v ↔ _
    rw [convertValue_ok_iff]
    simp [cellValue]

theorem convertRow_ok_iff (row : Nat × List (Option String)) (values : List Value) :
    convertRow row = .ok values ↔ (∀ raw ∈ row.2.reduceOption, ¬ Overlong raw) ∧ rowOf row = values := by
  unfold convertRow rowOf
  rw [bind_ok_iff]
  simp only [List.reduceOption_mem_iff]
  constructor
  · rintro ⟨vs, hvs, h⟩
    obtain ⟨hshort, rfl⟩ := (mapM_guarded convertCell_ok_iff).mp hvs
    exact ⟨fun raw hraw => hshort (some raw) hraw raw rfl, Except.ok.inj h⟩
  · rintro ⟨hshort, rfl⟩
    refine ⟨_, (mapM_guarded convertCell_ok_iff).mpr ⟨fun cell hcell raw hraw => ?_, rfl⟩, rfl⟩
    rw [Option.mem_def] at hraw
    exact hshort raw (hraw ▸ hcell)

theorem convertSeries_ok_iff (s : RawSeries) (t : Series) :
    convertSeries s = .ok t ↔ (∀ raw ∈ s.texts, ¬ Overlong raw) ∧ seriesOf s = t := by
  unfold convertSeries seriesOf RawSeries.texts
  rw [bind_ok_iff]
  constructor
  · rintro ⟨rows, hrows, h⟩
    obtain ⟨hshort, rfl⟩ := (mapM_guarded convertRow_ok_iff).mp hrows
    refine ⟨fun raw hraw => ?_, Except.ok.inj h⟩
    obtain ⟨row, hrow, hraw⟩ := List.mem_flatMap.mp hraw
    exact hshort row hrow raw hraw
  · rintro ⟨hshort, rfl⟩
    exact ⟨_, (mapM_guarded convertRow_ok_iff).mpr
      ⟨fun row hrow raw hraw => hshort raw (List.mem_flatMap.mpr ⟨row, hrow, hraw⟩), rfl⟩, rfl⟩

theorem readable_iff {s : Scan} : Readable s ↔ (∀ e ∈ s.starParams.entries, ShortIndex e.1) ∧
    (∀ e ∈ fileEntries s, ¬ Overlong e.2) ∧ (∀ e ∈ pointEntries s, ¬ Overlong e.2) ∧
    (∀ e ∈ s.hashParams.entries, ¬ Overlong e.2) ∧
    ∀ t ∈ rawSeries (numberedOf s.starParams.entries), ∀ raw ∈ t.texts, ¬ Overlong raw := by
  have hconverted : (∀ raw ∈ converted s, ¬ Overlong raw) ↔ (∀ e ∈ fileEntries s, ¬ Overlong e.2) ∧
      (∀ e ∈ pointEntries s, ¬ Overlong e.2) ∧ (∀ e ∈ s.hashParams.entries, ¬ Overlong e.2) ∧
      ∀ t ∈ rawSeries (numberedOf s.starParams.entries), ∀ raw ∈ t.texts, ¬ Overlong raw := by
    unfold converted
    rw [List.forall_mem_append, List.forall_mem_map, List.forall_mem_append, List.forall_mem_append, List.forall_mem_flatMap]
    tauto
  rw [← hconverted]
  exact ⟨fun h => ⟨h.index, h.value⟩, fun h => ⟨h.1, h.2⟩⟩

/-- **What is built**, and when. -/
theorem build_ok_iff {path : String} {s : Scan} {r : Parsed} :
    build path s = .ok r ↔ Readable s ∧ result path s = r := by
  rw [readable_iff]
  unfold build
  simp only [bind_ok_iff, mapM_guarded convertEntry_ok_iff, numberedFields_ok_iff, mapM_guarded convertSeries_ok_iff]
  constructor
  · rintro ⟨_, ⟨hfile, rfl⟩, _, ⟨hindex, rfl⟩, _, ⟨hpoint, rfl⟩, _, ⟨hhash, rfl⟩, _, ⟨hseries, rfl⟩, h⟩
    refine ⟨⟨hindex, hfile, hpoint, hhash, hseries⟩, ?_⟩
    rw [← Except.ok.inj h]
    simp only [result, fileEntries, pointEntries, List.map_map]
    rfl
  · rintro ⟨⟨hindex, hfile, hpoint, hhash, hseries⟩, rfl⟩
    refine ⟨_, ⟨hfile, rfl⟩, _, ⟨hindex, rfl⟩, _, ⟨hpoint, rfl⟩, _, ⟨hhash, rfl⟩, _, ⟨hseries, rfl⟩, ?_⟩
    simp only [result, fileEntries, pointEntries, List.map_map]
    rfl

theorem parseRasRaw_scanned {quote : String → String} {path content : String} {s : Scan}
    (hs : scan (splitlines content.toList) = .ok s) : ∃ message, parseRasRaw quote path content =
      if supported s = true then (build path s).mapError .python >>= fun r => validateResult s r >>= fun _ => .ok r
      else .error (.own .unsupportedFileFormat message) := by
  unfold parseRasRaw
  rw [hs]
  cases hsupported : supported s with
  | true => exact ⟨"", (congrArg (fun b => ite ((!b) = true) _ _) hsupported).trans rfl⟩
  | false => exact ⟨_, (congrArg (fun b => ite ((!b) = true) _ _) hsupported).trans rfl⟩

/-- **What is returned**, where something is. -/
theorem parseRasRaw_ok {quote : String → String} {path content : String} {r : Parsed}
    (h : parseRasRaw quote path content = .ok r) :
    ∃ s, scan (splitlines content.toList) = .ok s ∧ Readable s ∧ result path s = r := by
  cases hscan : scan (splitlines content.toList) with
  | error e =>
    unfold parseRasRaw at h
    rw [hscan] at h
    cases h
  | ok s =>
    obtain ⟨message, hparse⟩ := parseRasRaw_scanned hscan
    rw [hparse] at h
    split at h
    · obtain ⟨r', hbuild, h⟩ := bind_ok_iff.mp h
      obtain ⟨_, _, h⟩ := bind_ok_iff.mp h
      obtain rfl := Except.ok.inj h
      cases hb : build path s with
      | error e =>
        rw [hb] at hbuild
        cases hbuild
      | ok r'' =>
        rw [hb] at hbuild
        obtain rfl := Except.ok.inj hbuild
        exact ⟨s, rfl, build_ok_iff.mp hb⟩
    · cases h

end Irip.Converters.Xrd
