import Irip.Converters.Tga
import Irip.Converters.Xrd

/-!
# `Converters.Closed` — which files the converters do not fail closed on

`TgaRegular` and `XrdRegular` are the conditions, in terms of what was read.
-/

namespace Irip.Converters

open Evaluation (bind_ok_iff)

/-! ## Thermal analyser -/

namespace Tga

/-- Every data line behind the last separator has a number for each column, all of them finite. -/
def TgaRegular (content : String) : Prop :=
  let lines := splitlines content.toList
  let s := scan lines
  s.headerParams.entries ≠ [] → ∀ line ∈ lines.drop (dataStart s + 1), ∀ result, parseDataLine line = some result →
    2 ≤ result.length → (columnNames s).length ≤ result.length ∧
      ∀ x ∈ result.take (columnNames s).length, x.isFinite = true

theorem mem_dataRows {columns : Nat} {lines : List Line} {row : List FloatNum} : row ∈ dataRows columns lines ↔
    ∃ line ∈ lines, ∃ result, parseDataLine line = some result ∧ 2 ≤ result.length ∧ result.take columns = row := by
  unfold dataRows
  rw [List.mem_filterMap]
  refine exists_congr fun line => and_congr_right fun _ => ?_
  cases parseDataLine line with
  | none => exact iff_of_false (fun h => by cases h) (fun ⟨_, h, _⟩ => by cases h)
  | some result =>
    dsimp only
    split
    · next htwo => simp [htwo]
    · next htwo => simp [htwo]

theorem dumps_parsed {path : String} {header : String → String} {columns : List String} {rows : List (List FloatNum)} :
    (parsed path header columns rows).Dumps ↔ ∀ row ∈ rows, ∀ x ∈ row, x.isFinite = true := by
  have hmetadata : ∀ v ∈ (metadata path header rows.length).map Prod.snd, v.Dumps := by
    simp [metadata, Value.Dumps]
  unfold Parsed.Dumps Parsed.values parsed
  rw [List.forall_mem_append, and_iff_right hmetadata]
  simp only [List.map_nil, List.nil_append, List.flatMap_cons, List.flatMap_nil, List.append_nil, List.mem_flatten,
    List.mem_map]
  constructor
  · intro h row hrow x hx
    exact h (.float x) ⟨_, ⟨row, hrow, rfl⟩, List.mem_map.mpr ⟨x, hx, rfl⟩⟩
  · rintro h v ⟨_, ⟨row, hrow, rfl⟩, hv⟩
    obtain ⟨x, hx, rfl⟩ := List.mem_map.mp hv
    exact h row hrow x hx

theorem rectangular_parsed {path : String} {header : String → String} {columns : List String}
    {rows : List (List FloatNum)} :
    (parsed path header columns rows).Rectangular ↔ ∀ row ∈ rows, row.length = columns.length := by
  unfold Parsed.Rectangular parsed
  simp

/-- **Thermal analyser**: the parser fails closed exactly on regular files. -/
theorem failsClosed_iff (path content : String) : FailsClosed (parseTga path content) ↔ TgaRegular content := by
  rw [parseTga_eq rfl rfl rfl]
  unfold TgaRegular
  dsimp only
  generalize scan (splitlines content.toList) = s
  split
  · next hempty => exact iff_of_true trivial fun h => absurd hempty h
  · next hheader =>
      have hrows : (∀ row ∈ dataRows (columnNames s).length ((splitlines content.toList).drop (dataStart s + 1)),
          (∀ x ∈ row, x.isFinite = true) ∧ row.length = (columnNames s).length) ↔
          ∀ line ∈ (splitlines content.toList).drop (dataStart s + 1), ∀ result, parseDataLine line = some result →
            2 ≤ result.length → (columnNames s).length ≤ result.length ∧
              ∀ x ∈ result.take (columnNames s).length, x.isFinite = true := by
        constructor
        · intro h line hline result hparse htwo
          obtain ⟨hfinite, hlength⟩ := h _ (mem_dataRows.mpr ⟨line, hline, result, hparse, htwo, rfl⟩)
          rw [List.length_take] at hlength
          exact ⟨by omega, hfinite⟩
        · intro h row hrow
          obtain ⟨line, hline, result, hparse, htwo, rfl⟩ := mem_dataRows.mp hrow
          obtain ⟨hlength, hfinite⟩ := h line hline result hparse htwo
          exact ⟨hfinite, List.length_take_of_le hlength⟩
      have hregular := Iff.trans hrows ⟨fun h (_ : s.headerParams.entries ≠ []) => h, fun h => h hheader⟩
      rw [← hregular]
      split
      · next hnone =>
          rw [hnone]
          exact iff_of_true trivial (List.forall_mem_nil _)
      · show Parsed.Dumps _ ∧ Parsed.Rectangular _ ↔ _
        rw [dumps_parsed, rectangular_parsed]
        exact ⟨fun h row hrow => ⟨h.1 row hrow, h.2 row hrow⟩,
          fun h => ⟨fun row hrow => (h row hrow).1, fun row hrow => (h row hrow).2⟩⟩

end Tga

/-! ## Diffractometer -/

namespace Xrd

/-- A value that a float can be compared with. -/
def Subtracts : Value → Prop
  | .int n => (binary64.ofRat n).isFinite = true
  | .str _ => False
  | _ => True

/-- A declared value, where it can be read. -/
def declared (s : Scan) (key : String) : Value := valueOf (s.starParams.getD key "")

/-- The data, if there is any, can be compared with what is declared. -/
structure Comparable (s : Scan) : Prop where
  scanStart : Subtracts (declared s "MEAS_SCAN_START")
  scanStop : Subtracts (declared s "MEAS_SCAN_STOP")
  scanStep : s.starParams.getD "MEAS_SCAN_UNEQUALY_SPACED" "False" = "False" → 2 ≤ s.xrdData.length →
    Subtracts (declared s "MEAS_SCAN_STEP")

/-- The numbers can be read; where there is no data they are finite, and where there is they can be compared with it. -/
structure Regular (s : Scan) : Prop where
  readable : Readable s
  finite : s.xrdData = [] → ∀ raw ∈ converted s, (valueOf raw).Dumps
  comparable : s.xrdData ≠ [] → Comparable s

/-- Only files of the supported format count. -/
def XrdRegular (content : String) : Prop :=
  ∀ s, scan (splitlines content.toList) = .ok s → supported s = true → Regular s

theorem scan_error {lines : List Line} {e : Failure} (h : scan lines = .error e) :
    ∃ kind message, e = .own kind message := by
  unfold scan at h
  generalize ({} : Scan) = s at h
  induction lines generalizing s with
  | nil => cases h
  | cons line lines ih =>
    rw [List.foldlM_cons] at h
    rcases Evaluation.bind_error_iff.mp h with h | ⟨s', _, h⟩
    · unfold scanLine at h
      dsimp only at h
      split at h
      · cases h
      · split at h
        · cases h
        · split at h
          · cases h
          · unfold parseXrdDataLine at h
            split at h
            · split at h
              · cases h
              · exact ⟨_, _, (Except.error.inj h).symm⟩
            · cases h
    · exact ih s' h

theorem declared_mem {s : Scan} {key : String}
    (hkey : key ∈ ["MEAS_DATA_COUNT", "MEAS_SCAN_START", "MEAS_SCAN_STOP", "MEAS_SCAN_STEP"]) :
    s.starParams.getD key "" = "" ∨ s.starParams.getD key "" ∈ converted s := by
  unfold Dict.getD
  cases hget : s.starParams.get? key with
  | none => exact .inl rfl
  | some raw =>
    refine .inr (List.mem_append_left _ (List.mem_map.mpr ⟨(key, raw), ?_, rfl⟩))
    refine List.mem_append_left _ (List.mem_append_right _ (List.mem_filter.mpr ⟨Dict.get?_eq_some_iff.mp hget, ?_⟩))
    have hplain : ∀ k ∈ ["MEAS_DATA_COUNT", "MEAS_SCAN_START", "MEAS_SCAN_STOP", "MEAS_SCAN_STEP"],
        isFileKey k = false ∧ (indexSuffix k).isNone = true ∧ k ∉ unitMapping.map Prod.snd ∧
          ¬ "_UNIT".toList <:+ k.toList := by
      decide +kernel
    obtain ⟨hfile, hindex, hmapped, hsuffix⟩ := hplain key hkey
    have hsource : key ∉ collectUnitSourceFields s.starParams := by
      intro hmem
      rcases List.mem_append.mp hmem with hmem | hmem
      · exact hmapped (List.mem_filter.mp hmem).1
      · obtain ⟨owner, _, rfl⟩ := List.mem_map.mp (List.mem_filter.mp hmem).1
        exact hsuffix (String.toList_append ▸ List.suffix_append _ _)
    show isPointKey s.starParams key = true
    unfold isPointKey
    rw [hfile, hindex, decide_eq_true hsource]
    rfl

theorem declaredValue_eq {s : Scan} (h : Readable s) {key : String}
    (hkey : key ∈ ["MEAS_DATA_COUNT", "MEAS_SCAN_START", "MEAS_SCAN_STOP", "MEAS_SCAN_STEP"]) :
    declaredValue s key = .ok (declared s key) := by
  refine convertValue_ok_iff.mpr ⟨?_, rfl⟩
  rcases declared_mem hkey with hempty | hmem
  · rw [hempty]
    exact fun hlong => by cases hlong.1
  · exact h.value _ hmem

theorem difference_ok_iff (v : Value) : difference v = .ok () ↔ Subtracts v := by
  cases v with
  | null | float x => exact iff_of_true rfl trivial
  | str raw => exact iff_of_false (fun h => by cases h) id
  | int n =>
    show (if n = 0 then .ok () else (floatOfInt n).map (fun _ => ())) = .ok () ↔ (binary64.ofRat n).isFinite = true
    unfold floatOfInt
    by_cases hzero : n = 0
    · subst hzero
      exact iff_of_true rfl (by decide +kernel)
    · rw [if_neg hzero]
      split
      · next hfinite => exact iff_of_true rfl hfinite
      · next hfinite => exact iff_of_false (fun h => by cases h) hfinite

theorem compareScan_ok_iff {s : Scan} (h : Readable s) : compareScan s = .ok () ↔ (s.xrdData ≠ [] → Comparable s) := by
  unfold compareScan
  rw [declaredValue_eq h (by decide), declaredValue_eq h (by decide), declaredValue_eq h (by decide),
    declaredValue_eq h (by decide)]
  change (if s.xrdData = [] then Except.ok () else difference (declared s "MEAS_SCAN_START") >>= fun _ =>
    difference (declared s "MEAS_SCAN_STOP") >>= fun _ =>
      if s.starParams.getD "MEAS_SCAN_UNEQUALY_SPACED" "False" = "False" ∧ 2 ≤ s.xrdData.length then
        difference (declared s "MEAS_SCAN_STEP") else .ok ()) = .ok () ↔ _
  by_cases hdata : s.xrdData = []
  · rw [if_pos hdata]
    exact iff_of_true rfl fun hne => absurd hdata hne
  · rw [if_neg hdata]
    constructor
    · intro h _
      obtain ⟨⟨⟩, hstart, h⟩ := bind_ok_iff.mp h
      obtain ⟨⟨⟩, hstop, h⟩ := bind_ok_iff.mp h
      refine ⟨(difference_ok_iff _).mp hstart, (difference_ok_iff _).mp hstop, fun hspaced htwo => ?_⟩
      rw [if_pos ⟨hspaced, htwo⟩] at h
      exact (difference_ok_iff _).mp h
    · intro h
      obtain ⟨hstart, hstop, hstep⟩ := h hdata
      refine bind_ok_iff.mpr ⟨(), (difference_ok_iff _).mpr hstart, ?_⟩
      refine bind_ok_iff.mpr ⟨(), (difference_ok_iff _).mpr hstop, ?_⟩
      split
      · next hspaced => exact (difference_ok_iff _).mpr (hstep hspaced.1 hspaced.2)
      · rfl

theorem rectangular_result (path : String) (s : Scan) : (result path s).Rectangular := by
  have hraw : ∀ t ∈ rawSeries (numberedOf s.starParams.entries), ∀ row ∈ t.rows, row.2.length + 1 = t.columns.length := by
    have hrows : ∀ numbered : Numbered, ∀ bases : List String, ∀ row ∈ rawRows numbered bases, row.2.length = bases.length := by
      intro numbered bases row hrow
      obtain ⟨i, _, rfl⟩ := List.mem_map.mp hrow
      exact List.length_map _
    intro t ht
    rcases List.mem_append.mp ht with ht | ht
    · unfold axisSeries at ht
      dsimp only at ht
      split at ht
      · cases ht
      · obtain rfl := List.mem_singleton.mp ht
        intro row hrow
        rw [hrows _ _ row hrow, List.length_map, List.length_cons]
    · obtain ⟨name, _, rfl⟩ := List.mem_map.mp ht
      unfold groupSeries
      split
      · intro row hrow
        rw [hrows _ _ row hrow]
        rfl
      · intro row hrow
        rw [hrows _ _ row hrow, List.length_cons]
  intro t ht row hrow
  rcases List.mem_append.mp ht with ht | ht
  · obtain ⟨u, hu, rfl⟩ := List.mem_map.mp ht
    obtain ⟨rawRow, hrawRow, rfl⟩ := List.mem_map.mp hrow
    have hlength := hraw u hu rawRow hrawRow
    show (Value.int rawRow.1 :: rawRow.2.map cellValue).length = u.columns.length
    rw [List.length_cons, List.length_map, hlength]
  · obtain rfl := List.mem_singleton.mp ht
    obtain ⟨point, _, rfl⟩ := List.mem_map.mp hrow
    rfl

theorem dumps_result_iff {path : String} {s : Scan} (hdata : s.xrdData = []) :
    (result path s).Dumps ↔ ∀ raw ∈ converted s, (valueOf raw).Dumps := by
  have hseries : ∀ t : RawSeries, (∀ v ∈ (seriesOf t).rows.flatten, v.Dumps) ↔ ∀ raw ∈ t.texts, (valueOf raw).Dumps := by
    intro t
    show (∀ v ∈ (t.rows.map rowOf).flatten, v.Dumps) ↔ ∀ raw ∈ t.rows.flatMap (fun row => row.2.reduceOption), _
    rw [List.forall_mem_flatten, List.forall_mem_map, List.forall_mem_flatMap]
    refine forall₂_congr fun row _ => ?_
    unfold rowOf
    rw [List.forall_mem_cons, and_iff_right (show Value.Dumps (.int row.1) from trivial), List.forall_mem_map]
    simp only [List.reduceOption_mem_iff]
    constructor
    · exact fun h raw hraw => h (some raw) hraw
    · intro h cell hcell
      cases cell with
      | none => exact trivial
      | some raw => exact h raw hcell
  have hxrd : (xrdSeries s).rows = [] := by
    show s.xrdData.map _ = []
    rw [hdata, List.map_nil]
  unfold Parsed.Dumps Parsed.values converted result
  simp only [List.map_append, List.map_map, List.forall_mem_append, List.forall_mem_map, List.forall_mem_flatMap,
    List.flatMap_append, List.flatMap_cons, List.flatMap_nil, hxrd, List.flatten_nil, List.append_nil,
    List.map_cons, List.map_nil, List.forall_mem_singleton, Function.comp_apply, hseries]
  have hname : (Value.str (basename path)).Dumps := trivial
  tauto

theorem dumps_of_any {r : Parsed} (h : r.values.any isNanInf = false) : r.Dumps := by
  intro v hv
  have hfinite := List.any_eq_false.mp h v hv
  cases v with
  | float x => simpa [isNanInf, Value.Dumps] using hfinite
  | null | int _ | str _ => exact trivial

theorem failsClosed_validate {path : String} {s : Scan} (h : Readable s) :
    FailsClosed (validateResult s (result path s) >>= fun _ => .ok (result path s)) ↔
      (s.xrdData = [] → ∀ raw ∈ converted s, (valueOf raw).Dumps) ∧ (s.xrdData ≠ [] → Comparable s) := by
  unfold validateResult
  cases hcompare : compareScan s with
  | error e =>
    refine iff_of_false id fun hregular => ?_
    rw [(compareScan_ok_iff h).mpr hregular.2] at hcompare
    cases hcompare
  | ok u =>
    obtain ⟨⟩ := u
    have hcomparable := (compareScan_ok_iff h).mp hcompare
    rw [and_iff_left hcomparable]
    show FailsClosed ((if s.xrdData ≠ [] ∧ (result path s).values.any isNanInf = true then _ else .ok ()) >>= _) ↔ _
    by_cases hdata : s.xrdData = []
    · rw [if_neg (fun hne => hne.1 hdata)]
      show (result path s).Dumps ∧ (result path s).Rectangular ↔ _
      rw [and_iff_left (rectangular_result path s), dumps_result_iff hdata, forall_prop_of_true hdata]
    · refine iff_of_true ?_ fun hnil => absurd hnil hdata
      by_cases hany : (result path s).values.any isNanInf = true
      · rw [if_pos ⟨hdata, hany⟩]
        exact trivial
      · rw [if_neg (fun hne => hany hne.2)]
        exact ⟨dumps_of_any (Bool.eq_false_iff.mpr hany), rectangular_result path s⟩

theorem failsClosed_build (path : String) (s : Scan) :
    FailsClosed ((build path s).mapError .python >>= fun r => validateResult s r >>= fun _ => .ok r) ↔ Regular s := by
  cases hbuild : build path s with
  | error e =>
    refine iff_of_false id fun hregular => ?_
    rw [build_ok_iff.mpr ⟨hregular.readable, rfl⟩] at hbuild
    cases hbuild
  | ok r =>
    obtain ⟨hreadable, rfl⟩ := build_ok_iff.mp hbuild
    exact (failsClosed_validate hreadable).trans ⟨fun h => ⟨hreadable, h.1, h.2⟩, fun h => ⟨h.finite, h.comparable⟩⟩

/-- **Diffractometer**: the parser fails closed exactly on regular files. -/
theorem failsClosed_iff (quote : String → String) (path content : String) :
    FailsClosed (parseRasRaw quote path content) ↔ XrdRegular content := by
  unfold XrdRegular
  cases hscan : scan (splitlines content.toList) with
  | error e =>
    obtain ⟨kind, message, rfl⟩ := scan_error hscan
    unfold parseRasRaw
    rw [hscan]
    exact iff_of_true trivial fun s hs => by cases hs
  | ok s =>
    obtain ⟨message, hparse⟩ := parseRasRaw_scanned hscan
    rw [hparse]
    by_cases hsupported : supported s = true
    · rw [if_pos hsupported, failsClosed_build]
      refine ⟨fun h s' hs _ => ?_, fun h => h s rfl hsupported⟩
      cases hs
      exact h
    · rw [if_neg hsupported]
      refine iff_of_true trivial fun s' hs h => ?_
      cases hs
      exact absurd h hsupported

end Xrd

/-! ## Result -/

/-- **Both converters**: each fails closed exactly on its regular files. -/
theorem failsClosed_iff_regular (quote : String → String) (path content : String) :
    (FailsClosed (Xrd.parseRasRaw quote path content) ↔ Xrd.XrdRegular content) ∧
      (FailsClosed (Tga.parseTga path content) ↔ Tga.TgaRegular content) :=
  ⟨Xrd.failsClosed_iff quote path content, Tga.failsClosed_iff path content⟩

/-- A file of the supported format. -/
def rasText (lines : List String) : String :=
  "\n".intercalate ("*FILE_TYPE \"RAS_RAW\"" :: "*FILE_SYSTEM_NAME \"SmartLabXE\"" :: lines)

/-- **Files on which an exception escapes, or a result that is no such result**: a start and a step that are no numbers, a row with
fewer cells than columns, and a cell that is too large. -/
theorem not_failsClosed :
    ¬ FailsClosed (Xrd.parseRasRaw id "a.txt" (rasText ["*MEAS_SCAN_START \"auto\"", "10.0 1"])) ∧
    ¬ FailsClosed (Xrd.parseRasRaw id "a.txt" (rasText ["*MEAS_SCAN_STEP \"auto\"", "10.0 1", "11.0 1"])) ∧
    ¬ FailsClosed (Tga.parseTga "a.txt" "仪器:STA\n1 2") ∧
    ¬ FailsClosed (Tga.parseTga "a.txt" "仪器:STA\n1 1 1 1 1 1e999") := by
  refine ⟨?_, ?_, ?_, ?_⟩
  all_goals decide +kernel

end Irip.Converters
